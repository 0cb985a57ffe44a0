import ReechatBase.TcpSocket.Deframer

/-!
# A readable event while the worker lags behind

The peer keeps its side open and `::read` does not fail; the worker may be anywhere in its work.
This file asks when `TryReadDataFromSocket` closes such a connection.

- `wp_tryReadDataFromSocket_open`: not while the receiver ring has room for one more byte, however
  the worker moves meanwhile;
- `run_tryReadDataFromSocket_full`: it does on a completely full ring, where it asks `::read` for no
  bytes and takes the answer for the end of the stream;
- `stays_open_iff`: so the connection survives the event exactly when the ring is not full.
-/

namespace ReechatBase.TcpSocket

open Lib Lib.Prog RingBuffer

/-! ## An open peer -/

/-- The results of `::read` while the peer keeps its side open and no error occurs: 0 exactly when
    no bytes were asked for. -/
def OpenRead : (a : recvSig.Act) → recvSig.Res a → Prop
  | .read len, .eof => len = 0
  | .read len, .again => len ≠ 0
  | .read _, .error => False
  | _, _ => True

/-- A readable event with an open peer. Meanwhile the worker frees bytes of the ring, and leaves
    `state_` alone. -/
def openDisc (sh : PowShape) (ndebug : Bool) : Discipline recvSig Receiver where
  sem a s r t := RecvSem sh ndebug a s r t ∧ OpenRead a r
  inv s := Coherent sh s.ring
  rely s t := WriterRely s.ring t.ring ∧ t.ctrl.state = s.ctrl.state
  guar _ _ := True
  safe
    | .ring a, s => writerSafe sh True a s.ring
    | _, _ => True
  rely_refl s := ⟨.refl s.ring, rfl⟩
  rely_trans h h' := ⟨h.1.trans h'.1, h'.2.trans h.2⟩

variable {sh : PowShape} {ndebug : Bool}

/-! ## With room in the ring -/

section Room

variable {P : List UInt8} {w : UInt32} {arr : ℕ → UInt8} {free : ℕ} {s : Receiver}

theorem within_writer_open (goal : List UInt8) :
    Within (writerDisc sh ndebug True goal) (openDisc sh ndebug) recvRing ringOfReceiver where
  sem := by
    rintro a t r _ ⟨⟨h⟩, -⟩
    exact ⟨_, h, rfl⟩
  safe _ _ h := h
  rely _ _ h := h.1
  inv _ h := h

/-- A program of the writer while the connection is open. -/
theorem wp_onReceiver_open {α : Type} (goal : List UInt8) {p : Prog RingBuffer.sig α}
    {Q : α → Shared → Prop} (hs : s.ctrl.state = .connected)
    (h : wp (writerDisc sh ndebug True goal) p Q s.ring) :
    wp (openDisc sh ndebug) (onReceiver p) (fun a t => Q a t.ring ∧ t.ctrl.state = .connected)
      s := by
  refine wp_lift (within_writer_open goal) (P := fun t => t.ctrl.state = .connected) ?_ ?_ h hs
  · exact fun t u ht htu _ => htu.2.trans ht
  · exact fun t x ht _ hx _ => ⟨hx, trivial, ht⟩

/-- An open peer answers a request for bytes with bytes, or not yet. -/
theorem wp_read_open {len : UInt32} (hring : WriterView sh P w arr free s.ring)
    (hs : s.ctrl.state = .connected) (hlen : len ≠ 0) :
    wp (openDisc sh ndebug) (read len) (fun result t => (match result with
      | .data b => b.len.toNat ≤ len.toNat
      | .again => True
      | _ => False) ∧ WriterView sh P w arr free t.ring ∧ t.ctrl.state = .connected) s := by
  intro t hst ht
  have hview := hring.of_rely hst.1
  have hopen := hst.2.trans hs
  refine ⟨trivial, ?_⟩
  rintro r u ⟨hsem, hpeer⟩
  cases hsem with
  | readData hpos hle hbytes =>
    exact ⟨ht, trivial, fun v hv _ => ⟨hle, hview.of_rely hv.1, hv.2.trans hopen⟩⟩
  -- 0 is the answer to a request for no bytes only
  | readEof => exact absurd hpeer hlen
  | readAgain => exact ⟨ht, trivial, fun v hv _ => ⟨trivial, hview.of_rely hv.1, hv.2.trans hopen⟩⟩
  | readError => exact absurd hpeer id

/-- **With room for one byte** the connection survives a readable event, however the worker moves
    while it runs. -/
theorem wp_tryReadDataFromSocket_open (hcoh : Coherent sh s.ring) (hs : s.ctrl.state = .connected)
    (hroom : s.ring.mem.size < sh.cap) :
    wp (openDisc sh ndebug) (tryReadDataFromSocket sh.toShape)
      (fun _ t => t.ctrl.state = .connected) s := by
  have hidx := sh.mask_lt s.ring.mem.writeCount
  have hview :
      WriterView sh s.ring.published s.ring.mem.writeCount s.ring.mem.dataArr 1 s.ring :=
    .of_room hcoh hroom
  refine wp_seq (wp_onReceiver_open [] hs (wp_availableSeriesWrite hview)) ?_
  rintro n t _ ⟨⟨free, hfree, hview, hn⟩, hs⟩
  rw [seriesLen] at hn
  -- the worker only frees bytes, so the span is not empty
  have hpos : n ≠ 0 := by
    rintro rfl
    have hzero : (0 : UInt32).toNat = 0 := rfl
    omega
  refine wp_seq (wp_onReceiver_open [] hs (wp_currentSeriesWriteHead hview)) ?_
  rintro _ t _ ⟨⟨rfl, hview⟩, hs⟩
  refine wp_seq (wp_read_open hview hs hpos) ?_
  rintro (b | _ | _ | _) t _ ⟨hres, hview, hs⟩
  · have hres : b.len.toNat ≤ n.toNat := hres
    -- the two programs on the ring are verified as one
    show wp _ (onReceiver (storeBytes _ _) >>= fun _ => onReceiver (consumeSeriesWriteLen _ _) >>=
      fun _ => (effect .queueTryProcess).lift recvCtrl) _ t
    rw [← bind_assoc, onReceiver, onReceiver, ← lift_bind]
    refine wp_seq (wp_onReceiver_open _ hs (wp_fillSpan hview b (by omega) (by omega))) ?_
    rintro _ t _ ⟨-, hs⟩ u hu hinv
    refine ⟨trivial, ?_⟩
    rintro r v ⟨hsem, -⟩
    cases hsem
    exact ⟨hinv, trivial, fun x hx _ => hx.2.trans (hu.2.trans hs)⟩
  · exact absurd hres id
  · exact fun u hu _ => hu.2.trans hs
  · exact absurd hres id

end Room

/-! ## On a full ring -/

/-- Actions performed alone, with an open peer that has sent nothing more. -/
def openExec (sh : PowShape) (ndebug : Bool) : Exec recvSig Receiver
  | .read len, s => if len = 0 then some (.eof, s) else some (.again, s)
  | a, s => Receiver.exec sh ndebug 0 a s

theorem openSem_of_exec {a : recvSig.Act} {s t : Receiver} {r : recvSig.Res a}
    (h : openExec sh ndebug a s = some (r, t)) : RecvSem sh ndebug a s r t ∧ OpenRead a r := by
  cases a with
  | read len =>
    simp only [openExec] at h
    split at h
    · next hlen =>
      cases h
      exact ⟨.readEof, hlen⟩
    · next hlen =>
      cases h
      exact ⟨.readAgain, hlen⟩
  | ring a => exact ⟨@sem_of_exec sh ndebug 0 _ _ _ _ h, trivial⟩
  | ctrl a => exact ⟨@sem_of_exec sh ndebug 0 _ _ _ _ h, trivial⟩
  | signalReadPacket bytes => exact ⟨@sem_of_exec sh ndebug 0 _ _ _ _ h, trivial⟩
  | beginRun => exact ⟨@sem_of_exec sh ndebug 0 _ _ _ _ h, trivial⟩

/-- A program on the ring whose effect on the memory is known. -/
theorem run_onReceiver_open {α : Type} {p : Prog RingBuffer.sig α} {s : Receiver} {v : α} {m : Mem}
    (h : p.run (RingBuffer.exec ndebug) s.ring.mem = some (v, m)) :
    ∃ x : Shared, x.mem = m ∧
      (onReceiver p).run (openExec sh ndebug) s = some (v, { s with ring := x }) :=
  run_lift_of_mem (L := ringOfReceiver) (fun _ _ => Option.map_map _ _ _) h

theorem run_onErrorEvent_open (s : Receiver) :
    ∃ t, (onErrorEvent.lift recvCtrl).run (openExec sh ndebug) s = some ((), t) ∧
      t.ctrl.state = .closed := by
  obtain ⟨ring, ⟨state, hasReadPacket, hasOnCloseEvent, effects⟩, arrived, taken, delivered,
    runStart⟩ := s
  cases hasOnCloseEvent <;> exact ⟨_, rfl, rfl⟩

/-- **On a full ring** there is no room at the write head: `::read` is asked for no bytes, returns
    0, and `OnErrorEvent` closes the connection. -/
theorem run_tryReadDataFromSocket_full {s : Receiver} (hfull : s.ring.mem.size = sh.cap) :
    ∃ t, (tryReadDataFromSocket sh.toShape).run (openExec sh ndebug) s = some ((), t) ∧
      t.ctrl.state = .closed := by
  obtain ⟨n, hrun, hn⟩ := @run_availableSeriesWrite sh ndebug s.ring.mem hfull.le
  obtain rfl : n = 0 := by
    apply UInt32.toNat_inj.mp
    rw [hn, seriesLen, hfull, Nat.sub_self, Nat.zero_min]
    rfl
  obtain ⟨x₁, hx₁, h₁⟩ := @run_onReceiver_open sh ndebug _ _ s _ _ hrun
  have hhead := @run_currentSeriesWriteHead sh ndebug x₁.mem
  obtain ⟨x₂, -, h₂⟩ := @run_onReceiver_open sh ndebug _ _ { s with ring := x₁ } _ _ hhead
  -- the request is for no bytes, and its answer looks like the end of the stream
  have h₃ : (read 0).run (openExec sh ndebug) { s with ring := x₂ } =
      some (.eof, { s with ring := x₂ }) := rfl
  rw [tryReadDataFromSocket, run_bind_of_eq h₁, run_bind_of_eq h₂, run_bind_of_eq h₃]
  exact run_onErrorEvent_open { s with ring := x₂ }

/-- Alone with an open peer, a safe action does not abort. -/
theorem openExec_of_safe (a : recvSig.Act) (s : Receiver)
    (hsafe : (openDisc sh ndebug).safe a s) :
    ∃ r t, openExec sh ndebug a s = some (r, t) ∧ (openDisc sh ndebug).sem a s r t := by
  have hsome : ∃ rt, openExec sh ndebug a s = some rt := by
    cases a with
    | ring a =>
      cases a with
      | assertion p =>
        have hp : p = true := hsafe trivial
        subst hp
        exact ⟨_, by
          simp only [openExec, Receiver.exec, Shared.exec, RingBuffer.exec, Bool.or_true, if_true]
          rfl⟩
      | _ => exact ⟨_, rfl⟩
    | read len =>
      simp only [openExec]
      split <;> exact ⟨_, rfl⟩
    | _ => exact ⟨_, rfl⟩
  obtain ⟨⟨r, t⟩, h⟩ := hsome
  exact ⟨r, t, h, openSem_of_exec h⟩

/-- A connection with a full ring does not survive: the worker may stand still meanwhile. -/
theorem closes_of_full {s : Receiver} (hcoh : Coherent sh s.ring)
    (hfull : s.ring.mem.size = sh.cap) :
    ¬ wp (openDisc sh ndebug) (tryReadDataFromSocket sh.toShape)
      (fun _ t => t.ctrl.state = .connected) s := by
  intro h
  obtain ⟨t, hrun, hclosed⟩ := @run_tryReadDataFromSocket_full sh ndebug s hfull
  obtain ⟨_, u, hrun', -, hopen⟩ := run_of_wp (fun a s _ => openExec_of_safe a s) h hcoh
  obtain rfl : t = u := by simpa [hrun] using hrun'
  rw [hclosed] at hopen
  cases hopen

/-- **Back-pressure and the end of the stream.** Let the peer be open. Whatever the receiver ring
    holds, and however the worker moves while `TryReadDataFromSocket` runs, the connection survives
    exactly when the ring was not completely full. -/
theorem stays_open_iff (sh : PowShape) (ndebug : Bool) {s : Receiver} (hcoh : Coherent sh s.ring)
    (hs : s.ctrl.state = .connected) :
    wp (openDisc sh ndebug) (tryReadDataFromSocket sh.toShape)
      (fun _ t => t.ctrl.state = .connected) s ↔ s.ring.mem.size < sh.cap := by
  refine ⟨fun h => ?_, wp_tryReadDataFromSocket_open hcoh hs⟩
  -- without room for a byte the ring is full
  by_contra hfull
  exact closes_of_full hcoh (le_antisymm hcoh.size_le (Nat.le_of_not_lt hfull)) h

/-- A receiver whose five unread bytes cross the end of the array, as does `write_count_` the end of
    its range. -/
def lagging : Receiver := { splitHeader with
  ring := ⟨⟨fun i => [3, 4, 5, 0, 0, 0, 1, 2].getD i 0, 0xFFFFFFFE, 3⟩, [9, 1, 2, 3, 4, 5], 1⟩ }

theorem stays_open_iff_lagging : wp (openDisc eight false) (tryReadDataFromSocket eight.toShape)
    (fun _ t => t.ctrl.state = .connected) lagging :=
  (stays_open_iff eight false ⟨by decide, rfl, by decide, rfl⟩ rfl).mpr (by decide)

open Deframer in
/-- **A lagging worker closes the connection.** The peer sends as many bytes as the ring of the code
    holds before the worker runs once; the next readable event closes the connection, although the
    peer is still there. -/
theorem full_ring_closes : ∃ c : Config recvSig Receiver Side Status,
    ((deframer maxBufferShape .little false).lts
      (Deframer.Init (List.replicate (2 ^ 24) 1))).Reachable c ∧ c.prog .net = ret .idle ∧
    c.shared.ctrl.state = .connected ∧
    ¬ wp (openDisc maxBufferShape false) (tryReadDataFromSocket maxBufferShape.toShape)
      (fun _ t => t.ctrl.state = .connected) c.shared := by
  let s := Receiver.start (fun _ => 0) 0 ⟨.connected, true, true, []⟩ (List.replicate (2 ^ 24) 1)
  -- one readable event fills the ring
  obtain ⟨t, hrun, hsize, hopen⟩ := @run_onReadEvent_fill maxBufferShape false s rfl ⟨rfl, rfl⟩ rfl
    List.length_replicate
  have hnet : (runNet maxBufferShape.toShape).run
      (Receiver.exec maxBufferShape false maxBufferShape.cap) s = some (.idle, t) := by
    rw [runNet, run_bind_of_eq hrun, run_ret]
  have hinit : ((deframer maxBufferShape .little false).lts
      (Deframer.Init (List.replicate (2 ^ 24) 1))).Reachable ⟨fun _ => ret .idle, s⟩ :=
    .init ⟨_, _, _, rfl, rfl⟩
  have hbegin := Lts.ReachableBy.step hinit trivial (.next rfl .net)
  have hc := Deframer.reachable_of_run hnet (Function.update_self _ _ _) hbegin
  exact ⟨_, hc, rfl, hopen,
    closes_of_full (Deframer.holds hc).inv.coherent hsize⟩

end ReechatBase.TcpSocket
