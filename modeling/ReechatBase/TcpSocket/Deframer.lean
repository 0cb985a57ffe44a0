import ReechatBase.TcpSocket.Receiver
import ReechatBase.RingBuffer.Fifo

/-!
# The deframer against the reference parser

The receiving half of a socket as a system of two interleaved threads: the network thread reads
any part of what has arrived and publishes it, the worker runs
`TryProcessBufferedDataInWorkLoop`.

- `deframer_correct`: at every moment the frames handed over are a prefix of the reference parse
  of the stream; a run during which nothing was published has handed over every complete frame and
  left exactly the unparsed rest; and a run that overlaps no publish does so exactly when
  assertions are compiled out or the ring is not completely full;
- `full_ring_not_delivered`: how the ring of the code fills up completely.
-/

namespace ReechatBase.TcpSocket

open Lib Lib.Prog Lib.Framing RingBuffer

/-! ## The system -/

namespace Deframer

/-- The two threads. -/
inductive Side where
  | net
  | worker
  deriving DecidableEq

/-- Where a thread stands between two programs. -/
inductive Status where
  | idle
  /-- Inside the loop of `TryProcessBufferedDataInWorkLoop` -/
  | again
  deriving DecidableEq

variable (sh : Shape) (o : ByteOrder)

/-- A readable callback. -/
def runNet : Prog recvSig Status := do
  onReadEvent sh
  ret .idle

/-- A round of the loop. -/
def round : Prog recvSig Status := do
  let again ← tryProcessBufferedData sh o
  ret (if again then .again else .idle)

/-- The first round of a run of `TryProcessBufferedDataInWorkLoop`. -/
def runWorker : Prog recvSig Status :=
  act (S := recvSig) RecvAct.beginRun fun _ => round sh o

/-- What a thread may do next. -/
inductive Next : Side → Status → Prog recvSig Status → Prop
  | net : Next .net .idle (runNet sh)
  | run : Next .worker .idle (runWorker sh o)
  | round : Next .worker .again (round sh o)

end Deframer

open Deframer

def deframer (sh : PowShape) (o : ByteOrder) (ndebug : Bool) :
    Threads recvSig Receiver Side Status where
  sem _ := RecvSem sh ndebug
  next := Next sh.toShape o

/-- An empty ring with arbitrary counters, and a stream that has arrived. -/
def Receiver.start (arr : ℕ → UInt8) (count : UInt32) (ctrl : Ctrl) (stream : List UInt8) :
    Receiver where
  ring := ⟨⟨arr, count, count⟩, [], 0⟩
  ctrl := ctrl
  arrived := stream
  taken := 0
  delivered := []
  runStart := []

/-- Initially both threads are idle and `SignalReadPacket` is set. -/
def Deframer.Init (stream : List UInt8) (c : Config recvSig Receiver Side Status) : Prop :=
  ∃ arr count ctrl, ctrl.hasReadPacket = true ∧
    c = ⟨fun _ => ret .idle, .start arr count ctrl stream⟩

variable {sh : PowShape} {o : ByteOrder} {ndebug : Bool}

/-! ## The proof outline -/

/-- What the worker knows between two rounds: the frames handed over are a part of the parse that
    ends where the worker stands. -/
def Deframer.Between (o : ByteOrder) (s : Receiver) : Prop :=
  ∃ V r ds, WorkerView False V r ds.flatten.length ds s.runStart s ∧
    ds <+: (framing o).parse V ∧ s.runStart <+: V

/-- What the worker knows after a run: the parse was through for what it had seen. -/
def Deframer.Through (o : ByteOrder) (s : Receiver) : Prop :=
  ∃ V r, WorkerView False V r ((framing o).parse V).flatten.length ((framing o).parse V)
    s.runStart s ∧ s.runStart <+: V

def Deframer.idle (o : ByteOrder) : Side → Status → Receiver → Prop
  | .net, _, s => NetView s
  | .worker, .idle, s => Through o s
  | .worker, .again, s => Between o s

def Deframer.outline (sh : PowShape) (o : ByteOrder) (ndebug : Bool) :
    Threads.Outline (S := recvSig) (σ := Receiver) (ι := Side) (ρ := Status) where
  inv := Receiver.Inv sh o
  rely
    | .net => (netDisc sh o ndebug).rely
    | .worker => (workerDisc sh o ndebug False False).rely
  guar
    | .net => (netDisc sh o ndebug).guar
    | .worker => (workerDisc sh o ndebug False False).guar
  safe
    | .net => (netDisc sh o ndebug).safe
    | .worker => (workerDisc sh o ndebug False False).safe
  idle := Deframer.idle o
  rely_refl := by
    rintro (_ | _) s
    · exact (netDisc sh o ndebug).rely_refl s
    · exact (workerDisc sh o ndebug False False).rely_refl s
  rely_trans := by
    rintro (_ | _) s t u h h'
    · exact (netDisc sh o ndebug).rely_trans h h'
    · exact (workerDisc sh o ndebug False False).rely_trans h h'
  compat := by
    rintro (_ | _) (_ | _) hne s t _ _ h
    · exact absurd rfl hne
    · exact ⟨h.1, h.1.ring.published, False.elim⟩
    · exact h.1
    · exact absurd rfl hne

theorem Deframer.Through.between {s : Receiver} (h : Through o s) : Between o s := by
  obtain ⟨V, r, hview, hV⟩ := h
  exact ⟨V, r, _, hview, List.prefix_rfl, hV⟩

theorem Deframer.wp_round {s : Receiver} (hs : Between o s) :
    wp (workerDisc sh o ndebug False False) (Deframer.round sh.toShape o)
      (Deframer.idle o .worker) s := by
  obtain ⟨V, r, ds, hview, hds, hV⟩ := hs
  refine wp_seq (wp_tryProcessBufferedData hview rfl hds False.elim) ?_
  rintro again t _ ⟨V', r', ds', hV', hview', hds', hagain⟩ u hu _
  have hviewu := hview'.of_rely hu
  have hrun : u.runStart = s.runStart := hviewu.runStart
  rw [← hrun] at hviewu hV
  cases again with
  -- a frame was handed over, and the loop goes on
  | true => exact ⟨V', r', ds', hviewu, hds', hV.trans hV'.1⟩
  | false =>
    -- the loop stops only at the end of the parse
    obtain rfl : ds' = (framing o).parse V' := by simpa using hagain
    exact ⟨V', r', hviewu, hV.trans hV'.1⟩

/-- The view of a worker that has just looked at what is published. -/
theorem Deframer.Between.refresh {s : Receiver} (h : Between o s) (quiet : Prop) (R : List UInt8)
    (hR : s.runStart = R) : ∃ r ds, WorkerView quiet s.ring.published r ds.flatten.length ds R s ∧
      ds <+: (framing o).parse s.ring.published := by
  obtain ⟨V, r, ds, hview, hds, _⟩ := h
  exact ⟨r, ds, ⟨⟨.refl _ _, hview.ring.readCount, hview.ring.consumed⟩, hview.delivered, hR⟩,
    hds.trans (Format.parse_isPrefix hview.ring.published.1)⟩

theorem Deframer.Between.of_rely {s t : Receiver} (h : Between o s)
    (hst : (workerDisc sh o ndebug False False).rely s t) : Between o t := by
  obtain ⟨V, r, ds, hview, hds, hV⟩ := h
  have hviewt := hview.of_rely hst
  rw [← hst.1.runStart] at hviewt hV
  exact ⟨V, r, ds, hviewt, hds, hV⟩

theorem Deframer.Through.of_rely {s t : Receiver} (h : Through o s)
    (hst : (workerDisc sh o ndebug False False).rely s t) : Through o t := by
  obtain ⟨V, r, hview, hV⟩ := h
  have hviewt := hview.of_rely hst
  rw [← hst.1.runStart] at hviewt hV
  exact ⟨V, r, hviewt, hV⟩

theorem Deframer.wp_runWorker {s : Receiver} (hs : Between o s) :
    wp (workerDisc sh o ndebug False False) (Deframer.runWorker sh.toShape o)
      (Deframer.idle o .worker) s := by
  intro t hst ht
  refine ⟨trivial, ?_⟩
  rintro _ _ ⟨⟩
  refine ⟨⟨ht.coherent, ht.taken_le, ht.published, ht.delivered, ht.hasReadPacket⟩,
    ⟨⟨.refl _, rfl, List.prefix_rfl⟩, rfl⟩, ?_⟩
  -- the run begins with everything that is published
  obtain ⟨r, ds, hview, hds⟩ := (hs.of_rely hst).refresh False _ rfl
  exact wp_round ⟨t.ring.published, r, ds, ⟨hview.ring, hview.delivered, rfl⟩, hds,
    List.prefix_rfl⟩

theorem Deframer.outline_next {side : Side} {v : Status} {p : Prog recvSig Status} {s : Receiver}
    (hidle : Deframer.idle o side v s) (hp : Next sh.toShape o side v p) :
    wp ((outline sh o ndebug).disc (deframer sh o ndebug) side) p (Deframer.idle o side) s := by
  cases hp with
  | net => exact wp_seq (wp_onReadEvent hidle) fun _ _ _ h _ hu _ => h.of_rely hu
  | run => exact wp_runWorker (Through.between hidle)
  | round => exact wp_round hidle

theorem Deframer.outline_init {stream : List UInt8} {c : Config recvSig Receiver Side Status}
    (hc : Deframer.Init stream c) : (outline sh o ndebug).Holds (deframer sh o ndebug) c := by
  obtain ⟨arr, count, ctrl, hset, rfl⟩ := hc
  have hparse : (framing o).parse [] = [] := rfl
  refine ⟨⟨⟨le_rfl, ?_, ?_, ?_⟩, Nat.zero_le _, List.nil_prefix, List.nil_prefix, hset⟩, ?_⟩
  · simp [Receiver.start, Mem.size]
  · simp [Receiver.start, Mem.size]
  · simp [Receiver.start, Mem.content, Mem.size]
  · rintro (_ | _)
    · exact fun t hst _ => NetView.of_rely ⟨Nat.zero_le _, rfl⟩ hst
    · intro t hst _
      have hview : WorkerView False [] count 0 [] [] (Receiver.start arr count ctrl stream) :=
        ⟨⟨.refl _ _, rfl, rfl⟩, rfl, rfl⟩
      have hrun : t.runStart = [] := hst.1.runStart
      refine ⟨[], count, ?_, hrun ▸ List.prefix_rfl⟩
      rw [hparse, hrun]
      exact hview.of_rely hst

theorem Deframer.holds {stream : List UInt8} {c : Config recvSig Receiver Side Status}
    (hc : ((deframer sh o ndebug).lts (Deframer.Init stream)).Reachable c) :
    (outline sh o ndebug).Holds (deframer sh o ndebug) c :=
  (outline sh o ndebug).sound (fun _ => outline_init)
    (fun _ _ _ _ _ hidle hp => outline_next hidle hp) hc

theorem arrived_of_sem {a : recvSig.Act} {s t : Receiver} {r : recvSig.Res a}
    (h : RecvSem sh ndebug a s r t) : t.arrived = s.arrived := by
  cases h <;> rfl

/-- Nothing arrives but the stream. -/
theorem Deframer.arrived_eq {stream : List UInt8} {c : Config recvSig Receiver Side Status}
    (hc : ((deframer sh o ndebug).lts (Deframer.Init stream)).Reachable c) :
    c.shared.arrived = stream := by
  refine hc.invariant (I := fun c => c.shared.arrived = stream) ?_ ?_
  · rintro _ ⟨arr, count, ctrl, _, rfl⟩
    rfl
  · rintro c i _ hI (⟨_, hsem⟩ | _)
    · exact (arrived_of_sem hsem).trans hI
    · exact hI

/-! ## A run that is not interrupted -/

/-- Actions performed alone, where `::read` takes at most `chunk` bytes. -/
def Receiver.exec (sh : PowShape) (ndebug : Bool) (chunk : ℕ) : Exec recvSig Receiver
  | .ring a, s => (Shared.exec sh ndebug a s.ring).map fun rx => (rx.1, { s with ring := rx.2 })
  | .ctrl a, s => some ((Ctrl.exec a s.ctrl).1, { s with ctrl := (Ctrl.exec a s.ctrl).2 })
  | .read len, s =>
    let n := min (min chunk len.toNat) (s.arrived.length - s.taken)
    if h : 0 < n ∧ ((s.arrived.drop s.taken).take n).length = (UInt32.ofNat n).toNat then
      some (.data ⟨(s.arrived.drop s.taken).take n, UInt32.ofNat n, h.2⟩,
        { s with taken := s.taken + (UInt32.ofNat n).toNat })
    else
      some (.again, s)
  | .signalReadPacket bytes, s => some ((), { s with delivered := s.delivered ++ [bytes] })
  | .beginRun, s => some ((), { s with runStart := s.ring.published })

theorem sem_of_exec {chunk : ℕ} {a : recvSig.Act} {s t : Receiver} {r : recvSig.Res a}
    (h : Receiver.exec sh ndebug chunk a s = some (r, t)) : RecvSem sh ndebug a s r t := by
  cases a with
  | ring a =>
    obtain ⟨⟨r', x⟩, hx, heq⟩ := Option.map_eq_some_iff.mp h
    cases heq
    exact .ring hx
  | ctrl a =>
    cases h
    exact .ctrl
  | read len =>
    simp only [Receiver.exec] at h
    split at h
    · next hn =>
      cases h
      have hlen : (UInt32.ofNat (min (min chunk len.toNat) (s.arrived.length - s.taken))).toNat =
          min (min chunk len.toNat) (s.arrived.length - s.taken) := by
        rw [← hn.2, List.length_take, List.length_drop]
        omega
      refine .readData ?_ ?_ ?_
      · rw [hlen]
        exact hn.1
      · rw [hlen]
        omega
      · rw [hlen]
    · cases h
      exact .readAgain
  | signalReadPacket bytes =>
    cases h
    exact .signalReadPacket
  | beginRun =>
    cases h
    exact .beginRun

/-- A program that is not interrupted. -/
theorem Deframer.reachable_of_run {chunk : ℕ} {stream : List UInt8} {i : Side}
    {p : Prog recvSig Status} {s t : Receiver} {v : Status} {f : Side → Prog recvSig Status}
    (hrun : p.run (Receiver.exec sh ndebug chunk) s = some (v, t)) (hp : f i = p)
    (hc : ((deframer sh o ndebug).lts (Deframer.Init stream)).Reachable ⟨f, s⟩) :
    ((deframer sh o ndebug).lts (Deframer.Init stream)).Reachable
      ⟨Function.update f i (ret v), t⟩ :=
  Threads.reachable_of_run (fun _ _ _ _ h => sem_of_exec h) hrun hp hc

/-- A safe action of the worker does not abort, when assertions are compiled out or hold. -/
theorem exec_of_safe {chunk : ℕ} {quiet : Prop} (a : recvSig.Act) (s : Receiver)
    (hsafe : (workerDisc sh o ndebug (ndebug = false) quiet).safe a s) :
    ∃ r t, Receiver.exec sh ndebug chunk a s = some (r, t) ∧ RecvSem sh ndebug a s r t := by
  have hsome : ∃ rt, Receiver.exec sh ndebug chunk a s = some rt := by
    cases a with
    | ring a =>
      cases a with
      | assertion p =>
        -- the only action that can abort
        have hp : (ndebug || p) = true := by
          cases ndebug with
          | true => rfl
          | false => exact hsafe rfl
        exact ⟨_, by simp only [Receiver.exec, Shared.exec, RingBuffer.exec, hp, if_true]; rfl⟩
      | _ => exact ⟨_, rfl⟩
    | read len =>
      simp only [Receiver.exec]
      split <;> exact ⟨_, rfl⟩
    | _ => exact ⟨_, rfl⟩
  obtain ⟨⟨r, t⟩, hrt⟩ := hsome
  exact ⟨r, t, hrt, sem_of_exec hrt⟩

/-- A run of the deframer during which nothing is published hands over every complete frame. -/
theorem loops_of_room {chunk : ℕ} {V R : List UInt8} {r : UInt32} {ds : List (List UInt8)}
    {s : Receiver} (hinv : s.Inv sh o) (hs : WorkerView True V r ds.flatten.length ds R s)
    (hds : ds <+: (framing o).parse V)
    (hroom : ndebug = false → V.length < ds.flatten.length + sh.cap) :
    ∃ t r', Loops (Receiver.exec sh ndebug chunk) (tryProcessBufferedData sh.toShape o) s t ∧
      t.Inv sh o ∧ WorkerView True V r' ((framing o).parse V).flatten.length
        ((framing o).parse V) R t := by
  -- each round that goes on has handed over one more frame of the parse
  induction hn : ((framing o).parse V).length - ds.length using Nat.strongRecOn
    generalizing s r ds with
  | _ n ih =>
    have hwp : wp (workerDisc sh o ndebug (ndebug = false) True)
        (tryProcessBufferedData sh.toShape o) (RoundPost o True V ds R) s :=
      wp_tryProcessBufferedData hs rfl hds fun h => ⟨trivial, hroom h⟩
    obtain ⟨again, t, hrun, ht, V', r', ds', hV', hview, hds', hagain⟩ :
        ∃ again t, (tryProcessBufferedData sh.toShape o).run (Receiver.exec sh ndebug chunk) s =
          some (again, t) ∧ t.Inv sh o ∧ RoundPost o True V ds R again t :=
      run_of_wp (fun a s _ => exec_of_safe a s) hwp hinv
    -- nothing is published meanwhile
    obtain rfl : V' = V := hV'.2 trivial
    cases again with
    | false =>
      obtain rfl : ds' = (framing o).parse V' := by simpa using hagain
      exact ⟨t, r', .done hrun, ht, hview⟩
    | true =>
      have hlen : ds'.length = ds.length + 1 := by simpa using hagain
      have hle := hds'.length_le
      -- the frames take up more of the ring, so that the room stays
      have hflat : ds.flatten.length ≤ ds'.flatten.length := by
        obtain ⟨rest, rfl⟩ := List.prefix_of_prefix_length_le hds hds' (by omega)
        simp
      obtain ⟨u, r'', hloop, hu, hviewu⟩ := ih _ (by omega) ht hview hds'
        (fun h => by have := hroom h; omega) rfl
      exact ⟨u, r'', .again hrun hloop, hu, hviewu⟩

theorem run_onReceiver {α : Type} {chunk : ℕ} (p : Prog RingBuffer.sig α) (s : Receiver) :
    (onReceiver p).run (Receiver.exec sh ndebug chunk) s =
      (p.run (Shared.exec sh ndebug) s.ring).map fun vx => (vx.1, { s with ring := vx.2 }) := by
  refine run_lift (L := ringOfReceiver) (fun a t => ?_) p s
  exact Option.map_map _ _ _

/-- A program on the ring whose effect on the memory is known. -/
theorem run_onReceiver_of_mem {α : Type} {chunk : ℕ} {p : Prog RingBuffer.sig α} {s : Receiver}
    {v : α} {m : Mem} (h : p.run (RingBuffer.exec ndebug) s.ring.mem = some (v, m)) :
    ∃ x : Shared, x.mem = m ∧
      (onReceiver p).run (Receiver.exec sh ndebug chunk) s = some (v, { s with ring := x }) :=
  run_lift_of_mem (L := ringOfReceiver) (fun _ _ => Option.map_map _ _ _) h

/-- On a completely full ring `AvailableRead` fails its assertion. -/
theorem run_of_full {chunk : ℕ} {s : Receiver} (hfull : sh.cap ≤ s.ring.mem.size) :
    (tryProcessBufferedData sh.toShape o).run (Receiver.exec sh false chunk) s = none := by
  have hmem : (availableRead sh.toShape).run (RingBuffer.exec false) s.ring.mem = none := by
    rw [run_availableRead, Bool.false_or, if_neg (by simpa using hfull)]
  have hring : (availableRead sh.toShape).run (Shared.exec sh false) s.ring = none := by
    rwa [← run_shared sh, Option.map_eq_none_iff] at hmem
  rw [tryProcessBufferedData, run_bind, run_onReceiver, hring]
  rfl

/-! ## Main results -/

/-- What the deframer owes: every complete frame of what is published, and the unparsed rest left
    in the ring. -/
structure Complete (sh : PowShape) (o : ByteOrder) (P : List UInt8) (t : Receiver) : Prop where
  delivered : t.delivered = (framing o).parse P
  content : t.ring.mem.content sh = (framing o).unparsed P

theorem Complete.of_view {quiet : Prop} {P R : List UInt8} {r : UInt32} {t : Receiver}
    (ht : t.Inv sh o) (hpub : t.ring.published = P)
    (hview : WorkerView quiet P r ((framing o).parse P).flatten.length ((framing o).parse P) R t) :
    Complete sh o P t where
  delivered := hview.delivered
  content := by
    rw [ht.coherent.content_eq, hpub, hview.ring.consumed, Format.unparsed]

/-- **The deframer equals the reference parser.** For every stream, every starting value of the
    counters and every interleaving, the frames handed over are a prefix of the reference parse;
    a run during which nothing was published has been complete; and a run from here that overlaps
    no publish is complete exactly when assertions are compiled out or the ring has room. -/
theorem deframer_correct (sh : PowShape) (o : ByteOrder) (ndebug : Bool) (chunk : ℕ)
    (stream : List UInt8) {c : Config recvSig Receiver Side Status}
    (hc : ((deframer sh o ndebug).lts (Deframer.Init stream)).Reachable c) :
    c.shared.delivered <+: (framing o).parse stream ∧
    (c.prog .worker = ret .idle → c.shared.runStart = c.shared.ring.published →
      Complete sh o c.shared.ring.published c.shared) ∧
    (c.prog .worker = ret .idle →
      ((∃ t, Loops (Receiver.exec sh ndebug chunk) (tryProcessBufferedData sh.toShape o)
          c.shared t ∧ Complete sh o c.shared.ring.published t) ↔
        (ndebug = true ∨ c.shared.ring.mem.size < sh.cap))) := by
  have h := Deframer.holds hc
  have hinv : c.shared.Inv sh o := h.inv
  refine ⟨?_, ?_, ?_⟩
  · have hpub := hinv.published.trans (List.take_prefix _ _)
    rw [Deframer.arrived_eq hc] at hpub
    exact hinv.delivered.trans (Format.parse_isPrefix hpub)
  · intro hp hstart
    obtain ⟨V, r, hview, hV⟩ : Through o c.shared := h.idle _ hp
    -- what the run has seen lies between what was published before it and after it
    obtain rfl : V = c.shared.ring.published :=
      hview.ring.published.1.eq_of_length_le (hstart ▸ hV.length_le)
    exact Complete.of_view hinv rfl hview
  · intro hp
    have hbetween : Between o c.shared := Through.between (h.idle _ hp)
    constructor
    · rintro ⟨t, hloop, _⟩
      cases ndebug with
      | true => exact .inl rfl
      | false =>
        -- a full ring fails the assertion in `AvailableRead`
        refine .inr (Nat.lt_of_not_le fun hfull => ?_)
        exact not_loops_of_abort (run_of_full hfull) hloop
    · intro hroom
      -- the worker looks anew, and from here on nothing is published
      obtain ⟨r, ds, hview, hds⟩ := hbetween.refresh True _ rfl
      have hsize := hinv.coherent.size_eq
      have hle := hinv.coherent.consumed_le
      have hcons := hview.ring.consumed
      have hlt : ndebug = false → c.shared.ring.published.length < ds.flatten.length + sh.cap := by
        rintro rfl
        have := hroom.resolve_left Bool.false_ne_true
        omega
      obtain ⟨t, r', hloop, ht, hviewt⟩ := @loops_of_room sh o ndebug chunk _ _ r ds _ hinv hview
        hds hlt
      exact ⟨t, hloop, Complete.of_view ht (hviewt.ring.published.2 trivial) hviewt⟩

/-- A ring of eight bytes. -/
def eight : PowShape := .ofLog 3 (by decide)

/-- A stream of one frame, whose header the end of the array will split, and counters about to
    wrap. -/
def splitHeader : Receiver :=
  .start (fun _ => 0) 0xFFFFFFFF ⟨.connected, true, true, []⟩ [1, 0, 65]

theorem deframer_correct_splitHeader : ∃ c : Config recvSig Receiver Side Status,
    c.shared.delivered = [[1, 0, 65]] ∧
      Complete eight .little c.shared.ring.published c.shared := by
  have hinit : ((deframer eight .little false).lts (Deframer.Init [1, 0, 65])).Reachable
      ⟨fun _ => ret .idle, splitHeader⟩ := .init ⟨_, _, _, rfl, rfl⟩
  have hnet := Lts.ReachableBy.step hinit trivial (.next rfl .net)
  have hbyte := @Deframer.reachable_of_run eight .little false 3 _ .net _ _ _ .idle _ rfl rfl hnet
  have hnet' := Lts.ReachableBy.step hbyte trivial (.next rfl .net)
  have hrest := @Deframer.reachable_of_run eight .little false 3 _ .net _ _ _ .idle _ rfl rfl hnet'
  have hrun := Lts.ReachableBy.step hrest trivial (.next rfl .run)
  have hfirst :=
    @Deframer.reachable_of_run eight .little false 3 _ .worker _ _ _ .again _ rfl rfl hrun
  have hround := Lts.ReachableBy.step hfirst trivial (.next rfl .round)
  have hlast :=
    @Deframer.reachable_of_run eight .little false 3 _ .worker _ _ _ .idle _ rfl rfl hround
  exact ⟨_, rfl, (deframer_correct eight .little false 3 [1, 0, 65] hlast).2.1 rfl rfl⟩

/-! ## A full ring -/

theorem run_read {chunk : ℕ} {len : UInt32} {s : Receiver} (b : Block) (hpos : 0 < b.len.toNat)
    (hb : b.bytes = (s.arrived.drop s.taken).take b.len.toNat)
    (hn : min (min chunk len.toNat) (s.arrived.length - s.taken) = b.len.toNat) :
    (read len).run (Receiver.exec sh ndebug chunk) s =
      some (.data b, { s with taken := s.taken + b.len.toNat }) := by
  obtain ⟨bytes, blen, hlen⟩ := b
  have hexec : Receiver.exec sh ndebug chunk (.read len) s =
      some (.data ⟨bytes, blen, hlen⟩, { s with taken := s.taken + blen.toNat }) := by
    simp only at hpos hb hn
    have hof : UInt32.ofNat blen.toNat = blen := UInt32.ofNat_toNat
    simp only [Receiver.exec, hn, hof, ← hb]
    exact dif_pos ⟨hpos, hlen⟩
  show (Receiver.exec sh ndebug chunk (.read len) s).bind _ = _
  rw [hexec]
  rfl

/-- A readable event that finds the ring empty takes everything that has arrived, when the array
    holds it. -/
theorem run_onReadEvent_all {s : Receiver} (hstate : s.ctrl.state = .connected)
    (hmem : s.ring.mem.readCount = 0 ∧ s.ring.mem.writeCount = 0) (htaken : s.taken = 0)
    (harrived : 0 < s.arrived.length) (hlen : s.arrived.length ≤ sh.cap) :
    ∃ x n, n.toNat = s.arrived.length ∧
      x.mem = (s.ring.mem.setData (Cyclic.storeAt s.ring.mem.dataArr 0 s.arrived)).addWrite n ∧
      (onReadEvent sh.toShape).run (Receiver.exec sh ndebug sh.cap) s = some ((), { s with
        ring := x, taken := n.toNat,
        ctrl := (Ctrl.exec (.effect .queueTryProcess) s.ctrl).2 }) := by
  have hsize : s.ring.mem.size = 0 := by simp [Mem.size, hmem]
  have hidx : s.ring.mem.writeCount.toNat % sh.cap = 0 := by simp [hmem]
  have hcap := sh.cap_le
  have hstart : (loadState.lift recvCtrl).run (Receiver.exec sh ndebug sh.cap) s =
      some (.connected, s) := by
    rw [← hstate]
    rfl
  -- the span at the write head is the whole array
  obtain ⟨free, hrun, hfree⟩ := @run_availableSeriesWrite sh ndebug s.ring.mem (by omega)
  rw [hidx, hsize, seriesLen, Nat.sub_zero, Nat.min_self] at hfree
  obtain ⟨x₁, hx₁, h₁⟩ := @run_onReceiver_of_mem sh ndebug _ sh.cap _ _ _ _ hrun
  have hhead := @run_currentSeriesWriteHead sh ndebug s.ring.mem
  rw [hidx, ← hx₁] at hhead
  obtain ⟨x₂, hx₂, h₂⟩ :=
    @run_onReceiver_of_mem sh ndebug _ sh.cap _ { s with ring := x₁ } _ _ hhead
  -- `::read` yields everything
  have hn : (UInt32.ofNat s.arrived.length).toNat = s.arrived.length :=
    UInt32.toNat_ofNat_of_lt' (by simp only [UInt32.size]; omega)
  let b : Block := ⟨s.arrived, UInt32.ofNat s.arrived.length, hn.symm⟩
  have h₃ : (read free).run (Receiver.exec sh ndebug sh.cap) { s with ring := x₂ } =
      some (.data b, { s with ring := x₂, taken := b.len.toNat }) := by
    refine (run_read b (hn ▸ harrived) ?_ ?_).trans ?_
    · show s.arrived = (s.arrived.drop s.taken).take b.len.toNat
      rw [htaken, List.drop_zero, List.take_of_length_le hn.ge]
    · show min (min sh.cap free.toNat) (s.arrived.length - s.taken) = b.len.toNat
      simp only [b, hn]
      omega
    · simp only [htaken, Nat.zero_add]
  -- all of it is published
  have hstore := @run_storeBytes ndebug 0 s.arrived x₂.mem
  obtain ⟨x₃, hx₃, h₄⟩ := @run_onReceiver_of_mem sh ndebug _ sh.cap _
    { s with ring := x₂, taken := b.len.toNat } _ _ hstore
  have hx₃mem : x₃.mem = s.ring.mem.setData (Cyclic.storeAt s.ring.mem.dataArr 0 s.arrived) := by
    rw [hx₃, hx₂, hx₁]
  have hconsume := @run_consumeSeriesWriteLen sh ndebug x₃.mem b.len (by
    rw [hx₃mem, Mem.writeCount_setData, Mem.size_setData, hidx, hsize, seriesLen]
    simp only [b, hn]
    omega)
  obtain ⟨x₄, hx₄, h₅⟩ := @run_onReceiver_of_mem sh ndebug _ sh.cap _
    { s with ring := x₃, taken := b.len.toNat } _ _ hconsume
  refine ⟨x₄, b.len, hn, hx₄.trans (by rw [hx₃mem]), ?_⟩
  rw [onReadEvent, run_bind_of_eq hstart, if_pos rfl, tryReadDataFromSocket, run_bind_of_eq h₁,
    run_bind_of_eq h₂, run_bind_of_eq h₃]
  simp only
  rw [run_bind_of_eq h₄, run_bind_of_eq h₅]
  rfl

/-- Reading as much as the array holds into an empty ring fills it completely. -/
theorem run_onReadEvent_fill {s : Receiver} (hstate : s.ctrl.state = .connected)
    (hmem : s.ring.mem.readCount = 0 ∧ s.ring.mem.writeCount = 0) (htaken : s.taken = 0)
    (hlen : s.arrived.length = sh.cap) :
    ∃ t, (onReadEvent sh.toShape).run (Receiver.exec sh ndebug sh.cap) s = some ((), t) ∧
      t.ring.mem.size = sh.cap ∧ t.ctrl.state = .connected := by
  obtain ⟨x, n, hn, hx, hrun⟩ := @run_onReadEvent_all sh ndebug s hstate hmem htaken
    (hlen ▸ sh.cap_pos) hlen.le
  have hsize : s.ring.mem.size = 0 := by simp [Mem.size, hmem]
  refine ⟨_, hrun, ?_, hstate⟩
  show x.mem.size = sh.cap
  rw [hx, Mem.size_addWrite sh _ (by rw [Mem.size_setData]; omega), Mem.size_setData]
  omega

/-- The ring of the code: `16 * 1024 * 1024` bytes. -/
def maxBufferShape : PowShape := .ofLog 24 (by decide)

/-- **A full ring stops the deframer.** With assertions, a stream that fills the ring of the code
    completely before the worker runs is not delivered: the run aborts. -/
theorem full_ring_not_delivered : ∃ c : Config recvSig Receiver Side Status,
    ((deframer maxBufferShape .little false).lts
      (Deframer.Init (List.replicate (2 ^ 24) 1))).Reachable c ∧ c.prog .worker = ret .idle ∧
    ¬ ∃ t, Loops (Receiver.exec maxBufferShape false 0)
        (tryProcessBufferedData maxBufferShape.toShape .little) c.shared t ∧
      Complete maxBufferShape .little c.shared.ring.published t := by
  let s := Receiver.start (fun _ => 0) 0 ⟨.connected, true, true, []⟩ (List.replicate (2 ^ 24) 1)
  obtain ⟨t, hrun, hsize, -⟩ := @run_onReadEvent_fill maxBufferShape false s rfl ⟨rfl, rfl⟩ rfl
    List.length_replicate
  have hnet : (runNet maxBufferShape.toShape).run
      (Receiver.exec maxBufferShape false maxBufferShape.cap) s = some (.idle, t) := by
    rw [runNet, run_bind_of_eq hrun, run_ret]
  have hinit : ((deframer maxBufferShape .little false).lts
      (Deframer.Init (List.replicate (2 ^ 24) 1))).Reachable ⟨fun _ => ret .idle, s⟩ :=
    .init ⟨_, _, _, rfl, rfl⟩
  have hbegin := Lts.ReachableBy.step hinit trivial (.next rfl .net)
  refine ⟨_, Deframer.reachable_of_run hnet (Function.update_self _ _ _) hbegin, rfl, ?_⟩
  rintro ⟨u, hloop, _⟩
  exact not_loops_of_abort (run_of_full hsize.ge) hloop

end ReechatBase.TcpSocket
