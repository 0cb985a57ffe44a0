import ReechatBase.TcpSocket.Basic
import ReechatBase.RingBuffer.Discipline
import ReechatBase.Lib.BoundedFifo

/-!
# The receiving half of a socket

The network thread moves bytes from the socket into `receiver_buffer_`; the worker thread cuts
them into frames and hands these to `SignalReadPacket`. This file gives the shared state of the
two with its invariant, what each thread relies on, and the specification of each member function.

The central specification is `wp_tryProcessBufferedData`: whatever is published while a round of
the deframer runs, and whichever of its paths it takes, the round hands over the next frame of the
reference parse, or finds that no complete legal frame is left.
-/

namespace ReechatBase.TcpSocket

open Lib Lib.Prog Lib.Framing Lib.Cyclic RingBuffer

/-- The state of the receiving half. `arrived` is everything the peer has sent so far, `taken`
    the number of bytes read from the socket, `delivered` the calls of `SignalReadPacket`, and
    `runStart` what had been published when the worker's current or last run began. -/
structure Receiver where
  ring : Shared
  ctrl : Ctrl
  arrived : List UInt8
  taken : ℕ
  delivered : List (List UInt8)
  runStart : List UInt8

def ringOfReceiver : Lens Receiver Shared where
  get := Receiver.ring
  set x s := { s with ring := x }
  get_set _ _ := rfl
  set_get _ := rfl
  set_set _ _ _ := rfl

def ctrlOfReceiver : Lens Receiver Ctrl where
  get := Receiver.ctrl
  set x s := { s with ctrl := x }
  get_set _ _ := rfl
  set_get _ := rfl
  set_set _ _ _ := rfl

/-- The effect of an action. `::read` yields a non-empty part of what has arrived and was not
    read yet, of at most the length asked for, or reports something else. -/
inductive RecvSem (sh : PowShape) (ndebug : Bool) :
    (a : recvSig.Act) → Receiver → recvSig.Res a → Receiver → Prop
  | ring {a : RingBuffer.Act} {s : Receiver} {r : RingBuffer.sig.Res a} {x : Shared} :
      Shared.exec sh ndebug a s.ring = some (r, x) →
      RecvSem sh ndebug (.ring a) s r { s with ring := x }
  | ctrl {a : CtrlAct} {s : Receiver} :
      RecvSem sh ndebug (.ctrl a) s (Ctrl.exec a s.ctrl).1 { s with ctrl := (Ctrl.exec a s.ctrl).2 }
  | readData {len : UInt32} {s : Receiver} {b : Block} :
      0 < b.len.toNat → b.len.toNat ≤ len.toNat →
      b.bytes = (s.arrived.drop s.taken).take b.len.toNat →
      RecvSem sh ndebug (.read len) s (.data b) { s with taken := s.taken + b.len.toNat }
  | readEof {len : UInt32} {s : Receiver} : RecvSem sh ndebug (.read len) s .eof s
  | readAgain {len : UInt32} {s : Receiver} : RecvSem sh ndebug (.read len) s .again s
  | readError {len : UInt32} {s : Receiver} : RecvSem sh ndebug (.read len) s .error s
  | signalReadPacket {bytes : List UInt8} {s : Receiver} :
      RecvSem sh ndebug (.signalReadPacket bytes) s ()
        { s with delivered := s.delivered ++ [bytes] }
  | beginRun {s : Receiver} :
      RecvSem sh ndebug .beginRun s () { s with runStart := s.ring.published }

/-- The invariant of the receiving half: what is published was read from the socket, and what was
    handed over is what the reference parse finds in what is published. -/
structure Receiver.Inv (sh : PowShape) (o : ByteOrder) (s : Receiver) : Prop where
  coherent : Coherent sh s.ring
  taken_le : s.taken ≤ s.arrived.length
  published : s.ring.published <+: s.arrived.take s.taken
  delivered : s.delivered <+: (framing o).parse s.ring.published
  hasReadPacket : s.ctrl.hasReadPacket = true

/-- What the network thread may assume of the worker and of the peer. -/
structure NetRely (s t : Receiver) : Prop where
  ring : WriterRely s.ring t.ring
  taken : t.taken = s.taken
  arrived : s.arrived <+: t.arrived

/-- What the worker may assume of the network thread. -/
structure WorkerRely (s t : Receiver) : Prop where
  ring : ReaderRely s.ring t.ring
  delivered : t.delivered = s.delivered
  runStart : t.runStart = s.runStart

theorem NetRely.refl (s : Receiver) : NetRely s s := ⟨.refl _, rfl, List.prefix_rfl⟩

theorem NetRely.trans {s t u : Receiver} (h : NetRely s t) (h' : NetRely t u) : NetRely s u :=
  ⟨h.ring.trans h'.ring, h'.taken.trans h.taken, h.arrived.trans h'.arrived⟩

theorem WorkerRely.refl (s : Receiver) : WorkerRely s s := ⟨.refl _, rfl, rfl⟩

theorem WorkerRely.trans {s t u : Receiver} (h : WorkerRely s t) (h' : WorkerRely t u) :
    WorkerRely s u :=
  ⟨h.ring.trans h'.ring, h'.delivered.trans h.delivered, h'.runStart.trans h.runStart⟩

/-- The discipline of the network thread. -/
def netDisc (sh : PowShape) (o : ByteOrder) (ndebug : Bool) : Discipline recvSig Receiver where
  sem := RecvSem sh ndebug
  inv := Receiver.Inv sh o
  rely := NetRely
  guar s t := WorkerRely s t ∧ t.arrived = s.arrived
  safe
    | .ring a, s => writerSafe sh True a s.ring
    | _, _ => True
  rely_refl := .refl
  rely_trans := .trans

/-- The discipline of the worker. With `quiet`, nothing is published while it works. -/
def workerDisc (sh : PowShape) (o : ByteOrder) (ndebug : Bool) (strict quiet : Prop) :
    Discipline recvSig Receiver where
  sem := RecvSem sh ndebug
  inv := Receiver.Inv sh o
  rely s t := WorkerRely s t ∧ Grows quiet s.ring.published t.ring.published
  guar s t := NetRely s t ∧ t.arrived = s.arrived
  safe
    | .ring a, s => readerSafe sh strict a s.ring
    | _, _ => True
  rely_refl s := ⟨.refl s, .refl _ _⟩
  rely_trans h h' := ⟨h.1.trans h'.1, h.2.trans h'.2⟩

/-! ## Programs on the remaining members -/

/-- A discipline that asks nothing of a program on the remaining members. -/
def ctrlDisc : Discipline ctrlSig Ctrl where
  sem a c r d := (r, d) = Ctrl.exec a c
  inv c := c.hasReadPacket = true
  rely _ _ := True
  guar _ _ := True
  safe _ _ := True
  rely_refl _ := trivial
  rely_trans _ _ := trivial

theorem hasReadPacket_exec (a : CtrlAct) (c : Ctrl) :
    (Ctrl.exec a c).2.hasReadPacket = c.hasReadPacket := by
  cases a <;> rfl

theorem wp_ctrlDisc {α : Type} (p : Prog ctrlSig α) (c : Ctrl) :
    wp ctrlDisc p (fun _ _ => True) c := by
  induction p generalizing c with
  | ret a => exact fun _ _ _ => trivial
  | act a k ih =>
    intro d _ hd
    refine ⟨trivial, fun r e hre => ⟨?_, trivial, ih r e⟩⟩
    obtain rfl : e = (Ctrl.exec a d).2 := congrArg Prod.snd hre
    exact (hasReadPacket_exec a d).trans hd

variable {sh : PowShape} {o : ByteOrder} {ndebug : Bool} {strict quiet : Prop}

theorem within_ctrl_worker :
    Within ctrlDisc (workerDisc sh o ndebug strict quiet) recvCtrl ctrlOfReceiver where
  sem := by
    rintro a t _ _ ⟨⟩
    exact ⟨_, rfl, rfl⟩
  safe _ _ _ := trivial
  rely _ _ _ := trivial
  inv _ h := h.hasReadPacket

theorem within_ctrl_net : Within ctrlDisc (netDisc sh o ndebug) recvCtrl ctrlOfReceiver where
  sem := by
    rintro a t _ _ ⟨⟩
    exact ⟨_, rfl, rfl⟩
  safe _ _ _ := trivial
  rely _ _ _ := trivial
  inv _ h := h.hasReadPacket

theorem Receiver.Inv.setCtrl {s : Receiver} (h : s.Inv sh o) {c : Ctrl}
    (hc : c.hasReadPacket = true) : Receiver.Inv sh o { s with ctrl := c } :=
  ⟨h.coherent, h.taken_le, h.published, h.delivered, hc⟩

/-- Programs on the remaining members disturb nothing that the worker knows. -/
theorem wp_ctrl_worker {α : Type} (p : Prog ctrlSig α) {P : Receiver → Prop}
    (hstable : ∀ s t, P s → (workerDisc sh o ndebug strict quiet).rely s t → P t)
    (hctrl : ∀ s c, P s → P { s with ctrl := c }) {s : Receiver} (hs : P s) :
    wp (workerDisc sh o ndebug strict quiet) (p.lift recvCtrl) (fun _ t => P t) s := by
  refine wp_mono (fun _ _ _ h => h.2) (wp_lift within_ctrl_worker
    (fun s t h hst _ => hstable s t h hst) ?_ (wp_ctrlDisc p s.ctrl) hs)
  exact fun t c ht hinv hc _ =>
    ⟨hinv.setCtrl hc, ⟨⟨.refl _, rfl, List.prefix_rfl⟩, rfl⟩, hctrl t c ht⟩

/-- Programs on the remaining members disturb nothing that the network thread knows. -/
theorem wp_ctrl_net {α : Type} (p : Prog ctrlSig α) {P : Receiver → Prop}
    (hstable : ∀ s t, P s → NetRely s t → (netDisc sh o ndebug).inv t → P t)
    (hctrl : ∀ s c, P s → P { s with ctrl := c }) {s : Receiver} (hs : P s) :
    wp (netDisc sh o ndebug) (p.lift recvCtrl) (fun _ t => P t) s := by
  refine wp_mono (fun _ _ _ h => h.2) (wp_lift within_ctrl_net
    (fun s t h hst ht => hstable s t h hst ht) ?_ (wp_ctrlDisc p s.ctrl) hs)
  exact fun t c ht hinv hc _ => ⟨hinv.setCtrl hc, ⟨⟨.refl _, rfl, rfl⟩, rfl⟩, hctrl t c ht⟩

/-! ## Rounds of the deframer

A round of the deframer is verified once, under any discipline that offers the rules below. -/

section Round

variable {V : List UInt8} {r : UInt32} {c : ℕ}

/-- The header of the frame at position `c`, byte by byte. -/
theorem payloadLen_drop (o : ByteOrder) (h : c + 2 ≤ V.length) :
    (framing o).payloadLen ((V.drop c).take 2) = (o.value V[c] V[c + 1]).toNat := by
  rw [List.drop_eq_getElem_cons (by omega), List.drop_eq_getElem_cons (by omega)]
  rfl

theorem next_drop_of_short (o : ByteOrder) (h : V.length < c + 2) :
    (framing o).next (V.drop c) = none := by
  have hlen : (V.drop c).length < 2 := by
    rw [List.length_drop]
    omega
  exact if_neg fun hnext => absurd hnext.1 (Nat.not_le.mpr hlen)

/-- The frame at position `c`, when its header has arrived. -/
theorem next_drop (o : ByteOrder) (h : c + 2 ≤ V.length) {k : ℕ}
    (hk : (o.value V[c] V[c + 1]).toNat = k) :
    (framing o).next (V.drop c) =
      if k ≠ 0 ∧ c + (k + 2) ≤ V.length then some ((V.drop c).take (k + 2)) else none := by
  have hpay : (framing o).payloadLen ((V.drop c).take 2) = k := (payloadLen_drop o h).trans hk
  have hfl : (framing o).frameLen (V.drop c) = k + 2 := by
    rw [Format.frameLen, Nat.add_comm]
    exact congrArg (· + 2) hpay
  have hlen : (V.drop c).length = V.length - c := List.length_drop
  rw [Format.next, hfl, hlen]
  refine if_congr ?_ rfl rfl
  constructor
  · rintro ⟨_, hne, hle⟩
    exact ⟨hpay ▸ hne, by omega⟩
  · rintro ⟨hne, hle⟩
    exact ⟨show 2 ≤ V.length - c by omega, (hpay ▸ hne : _), by omega⟩

/-- Both ways of reading the header yield the two bytes at the read position. -/
theorem wp_payloadLength {x : Shared} {n : UInt32} (hx : ReaderView quiet V r c x)
    (hn : n.toNat = seriesLen sh.cap (r.toNat % sh.cap) (V.length - c)) (h : c + 2 ≤ V.length) :
    wp (readerDisc sh ndebug strict quiet) (payloadLength sh.toShape o n)
      (fun v t => v = o.value V[c] V[c + 1] ∧ ReaderView quiet V r c t) x := by
  have hidx := sh.mask_lt r
  have htwo : (2 : UInt32).toNat = 2 := rfl
  rw [seriesLen] at hn
  simp only [payloadLength]
  split
  · next hge =>
    -- both bytes lie before the end of the array
    rw [ge_iff_le, UInt32.le_iff_toNat_le, hn] at hge
    refine wp_seq (wp_currentSeriesReadHead hx) ?_
    rintro _ t _ ⟨rfl, hview⟩
    refine wp_seq (wp_reader_loadByte (j := 0) hview rfl (by omega)) ?_
    rintro _ t _ ⟨rfl, hview⟩
    refine wp_seq (wp_reader_loadByte (j := 1) hview (add_mod_of_lt (by omega)).symm
      (by omega)) ?_
    rintro _ t _ ⟨rfl, hview⟩
    exact fun u hu _ => ⟨rfl, hview.of_rely hu⟩
  · next hlt =>
    -- one byte before the end of the array: the other one is at its front
    rw [ge_iff_le, UInt32.le_iff_toNat_le, hn] at hlt
    refine wp_seq (wp_currentSeriesReadHead hx) ?_
    rintro _ t _ ⟨rfl, hview⟩
    refine wp_seq (wp_reader_loadByte (j := 0) hview rfl (by omega)) ?_
    rintro _ t _ ⟨rfl, hview⟩
    have hwrap : dataHead = (r.toNat + 1) % sh.cap := by
      rw [add_mod_of_ge (by omega) (by omega), dataHead]
      omega
    refine wp_seq (wp_reader_loadByte (j := 1) hview hwrap (by omega)) ?_
    rintro _ t _ ⟨rfl, hview⟩
    exact fun u hu _ => ⟨rfl, hview.of_rely hu⟩

/-- What a discipline offers to a round of the deframer. `ring` is the receiver ring in the state;
    `cut ds` is what the worker knows apart from the ring, when `ds` are the frames it has cut. -/
structure CutRules (sh : PowShape) (o : ByteOrder) (ndebug : Bool) (strict quiet : Prop) {σ : Type}
    (D : Discipline recvSig σ) (ring : σ → Shared) (cut : List (List UInt8) → σ → Prop) :
    Prop where
  rely : ∀ {s t}, D.rely s t → (readerDisc sh ndebug strict quiet).rely (ring s) (ring t)
  stable : ∀ {ds s t}, cut ds s → D.rely s t → cut ds t
  /-- A program of the reader -/
  onReceiver : ∀ {α : Type} {p : Prog RingBuffer.sig α} {Q : α → Shared → Prop} {ds s}, cut ds s →
    wp (readerDisc sh ndebug strict quiet) p Q (ring s) →
    wp D (onReceiver p) (fun a t => Q a (ring t) ∧ cut ds t) s
  illegalLength : ∀ {V r c ds s}, ReaderView quiet V r c (ring s) → cut ds s →
    wp D (illegalLength.lift recvCtrl) (fun _ t => ReaderView quiet V r c (ring t) ∧ cut ds t) s
  /-- Where `SignalReadPacket` may be unset, the frames cut are not known to the discipline -/
  testReadPacket : ∀ {V r c ds s}, ReaderView quiet V r c (ring s) → cut ds s →
    wp D (testReadPacket.lift recvCtrl) (fun set t => ReaderView quiet V r c (ring t) ∧
      cut ds t ∧ (set = false → ∀ ds', cut ds' t)) s
  signalReadPacket : ∀ {V r c ds s f}, ReaderView quiet V r c (ring s) → cut ds s →
    ds ++ [f] <+: (framing o).parse V →
    wp D (signalReadPacket f) (fun _ t => ReaderView quiet V r c (ring t) ∧ cut (ds ++ [f]) t) s

/-- What a round of the deframer has done when it returns: it has cut off one more frame, or no
    complete legal frame is left of what it has seen published. -/
def CutPost {σ : Type} (o : ByteOrder) (quiet : Prop) (ring : σ → Shared)
    (cut : List (List UInt8) → σ → Prop) (V : List UInt8) (ds : List (List UInt8)) (again : Bool)
    (t : σ) : Prop :=
  ∃ V' r' ds', Grows quiet V V' ∧ ReaderView quiet V' r' ds'.flatten.length (ring t) ∧ cut ds' t ∧
    ds' <+: (framing o).parse V' ∧
    if again then ds'.length = ds.length + 1 else ds' = (framing o).parse V'

namespace CutRules

variable {σ : Type} {D : Discipline recvSig σ} {ring : σ → Shared}
  {cut : List (List UInt8) → σ → Prop} {ds : List (List UInt8)} {s : σ}

/-- `if (SignalReadPacket)` around what hands over the next frame. -/
theorem wp_ifReadPacket (hD : CutRules sh o ndebug strict quiet D ring cut)
    {ds' : List (List UInt8)} {p : Prog recvSig Unit} (hring : ReaderView quiet V r c (ring s))
    (hcut : cut ds s)
    (h : ∀ t, ReaderView quiet V r c (ring t) → cut ds t →
      wp D p (fun _ u => ReaderView quiet V r c (ring u) ∧ cut ds' u) t) :
    wp D (ifReadPacket p) (fun _ u => ReaderView quiet V r c (ring u) ∧ cut ds' u) s := by
  refine wp_seq (hD.testReadPacket hring hcut) ?_
  rintro (_ | _) t _ ⟨hring, hcut, hunset⟩
  · exact fun u hu _ => ⟨hring.of_rely (hD.rely hu), hD.stable (hunset rfl ds') hu⟩
  · exact h t hring hcut

theorem wp_handOverInPlace (hD : CutRules sh o ndebug strict quiet D ring cut) {m : UInt32}
    (hring : ReaderView quiet V r c (ring s)) (hcut : cut ds s)
    (hfit : r.toNat % sh.cap + m.toNat ≤ sh.cap) (hlen : c + m.toNat ≤ V.length)
    (hf : ds ++ [(V.drop c).take m.toNat] <+: (framing o).parse V) :
    wp D (handOverInPlace sh.toShape m)
      (fun _ t => ∃ r', ReaderView quiet V r' (c + m.toNat) (ring t) ∧
        cut (ds ++ [(V.drop c).take m.toNat]) t) s := by
  have hhand : wp D
      (ifReadPacket do
        let head ← TcpSocket.onReceiver (currentSeriesReadHead sh.toShape)
        let bytes ← TcpSocket.onReceiver (loadBytes head m.toNat)
        TcpSocket.signalReadPacket bytes)
      (fun _ t => ReaderView quiet V r c (ring t) ∧ cut (ds ++ [(V.drop c).take m.toNat]) t) s := by
    refine hD.wp_ifReadPacket hring hcut fun t hring hcut => ?_
    refine wp_seq (hD.onReceiver hcut (wp_currentSeriesReadHead hring)) ?_
    rintro _ t _ ⟨⟨rfl, hring⟩, hcut⟩
    refine wp_seq (hD.onReceiver hcut (wp_loadBytes_head hring hfit hlen)) ?_
    rintro _ t _ ⟨⟨rfl, hring⟩, hcut⟩
    exact hD.signalReadPacket hring hcut hf
  refine wp_seq hhand fun _ t _ ⟨hring, hcut⟩ => ?_
  refine wp_mono ?_ (hD.onReceiver hcut (wp_consumeSeriesReadLen hring hfit hlen))
  exact fun _ t _ h => ⟨_, h⟩

theorem wp_handOverCopied (hD : CutRules sh o ndebug strict quiet D ring cut) {n m : UInt32}
    (hring : ReaderView quiet V r c (ring s)) (hcut : cut ds s)
    (hn : r.toNat % sh.cap + n.toNat = sh.cap) (hnm : n.toNat < m.toNat) (hm : m.toNat ≤ sh.cap)
    (hlen : c + m.toNat ≤ V.length)
    (hf : ds ++ [(V.drop c).take m.toNat] <+: (framing o).parse V) :
    wp D (handOverCopied sh.toShape n m)
      (fun _ t => ∃ r', ReaderView quiet V r' (c + m.toNat) (ring t) ∧
        cut (ds ++ [(V.drop c).take m.toNat]) t) s := by
  have hrest : (m - n).toNat = m.toNat - n.toNat :=
    UInt32.toNat_sub_of_le _ _ (UInt32.le_iff_toNat_le.mpr hnm.le)
  -- behind the front part the reader stands at the front of the array
  have hfront : (r + n).toNat % sh.cap = 0 := by
    have hidx := sh.mask_lt r
    rw [sh.add_toNat_mod, add_mod_of_ge (by omega) (by omega)]
    omega
  refine wp_seq (hD.onReceiver hcut (wp_currentSeriesReadHead hring)) ?_
  rintro _ t _ ⟨⟨rfl, hring⟩, hcut⟩
  refine wp_seq (hD.onReceiver hcut (wp_loadBytes_head hring hn.le (by omega))) ?_
  rintro _ t _ ⟨⟨rfl, hring⟩, hcut⟩
  refine wp_seq (hD.onReceiver hcut (wp_consumeSeriesReadLen hring hn.le (by omega))) ?_
  rintro _ t _ ⟨hring, hcut⟩
  refine wp_seq (hD.onReceiver hcut (wp_currentSeriesReadHead hring)) ?_
  rintro _ t _ ⟨⟨rfl, hring⟩, hcut⟩
  refine wp_seq (hD.onReceiver hcut (wp_loadBytes_head hring
    (by rw [hfront, hrest]; omega) (by rw [hrest]; omega))) ?_
  rintro _ t _ ⟨⟨rfl, hring⟩, hcut⟩
  refine wp_seq (hD.onReceiver hcut (wp_consumeSeriesReadLen hring
    (by rw [hfront, hrest]; omega) (by rw [hrest]; omega))) ?_
  rintro _ t _ ⟨hring, hcut⟩
  -- the two parts are the frame
  have hjoin : (V.drop c).take n.toNat ++ (V.drop (c + n.toNat)).take (m - n).toNat =
      (V.drop c).take m.toNat := by
    rw [hrest, ← List.drop_drop, ← List.take_add]
    congr 1
    omega
  have hpos : c + n.toNat + (m - n).toNat = c + m.toNat := by omega
  rw [hpos] at hring
  rw [hjoin]
  refine wp_mono (fun _ _ _ h => ⟨_, h⟩) (hD.wp_ifReadPacket hring hcut fun t hring hcut => ?_)
  exact hD.signalReadPacket hring hcut hf

/-- **One round of the deframer**, whatever is published meanwhile. -/
theorem wp_tryProcessBufferedData (hD : CutRules sh o ndebug strict quiet D ring cut)
    (hring : ReaderView quiet V r c (ring s)) (hcut : cut ds s) (hc : c = ds.flatten.length)
    (hds : ds <+: (framing o).parse V) (hroom : strict → quiet ∧ V.length < c + sh.cap) :
    wp D (tryProcessBufferedData sh.toShape o) (CutPost o quiet ring cut V ds) s := by
  refine wp_seq (hD.onReceiver hcut (wp_availableRead hring hroom)) ?_
  rintro a t _ ⟨⟨V₁, hV₁, hring, hlen, hcap⟩, hcut⟩
  refine wp_seq (hD.onReceiver hcut (wp_availableSeriesRead hring)) ?_
  rintro n t _ ⟨⟨V₂, hV₂, hring, hcle, hn⟩, hcut⟩
  have hlen₂ := hV₂.1.length_le
  have hds₁ := hds.trans (Format.parse_isPrefix hV₁.1)
  have hidx := sh.mask_lt r
  -- the round ends when the first reading shows no complete legal frame
  have hstop : ∀ u, ReaderView quiet V₂ r c (ring u) → cut ds u →
      (framing o).next (V₁.drop c) = none → CutPost o quiet ring cut V ds false u := by
    intro u hring hcut hnone
    refine ⟨V₁, r, ds, hV₁, ?_, hcut, hds₁, ?_⟩
    · exact hc ▸ ⟨hV₂.trans hring.published, hring.readCount, hring.consumed⟩
    · exact Format.eq_parse_of_next_none hds₁ (hc ▸ hnone)
  dsimp only
  split
  · next hshort =>
    -- `available_read < sizeof(uint16_t)`
    rw [UInt32.lt_iff_toNat_lt] at hshort
    have htwo : (2 : UInt32).toNat = 2 := rfl
    exact fun u hu _ => hstop u (hring.of_rely (hD.rely hu)) (hD.stable hcut hu)
      (next_drop_of_short o (by omega))
  · next hhead =>
    rw [UInt32.lt_iff_toNat_lt] at hhead
    have htwo : (2 : UInt32).toNat = 2 := rfl
    -- `available_series_read` may have been read later than `available_read`
    refine wp_seq (hD.onReceiver hcut (wp_payloadLength hring hn (by omega))) ?_
    rintro v t _ ⟨⟨hv, hring⟩, hcut⟩
    have htwo₁ : c + 2 ≤ V₁.length := by omega
    -- what was published does not change: the header is that of the first reading
    have hv₁ : (o.value V₁[c] V₁[c + 1]).toNat = v.toNat := by
      rw [hv, hV₂.1.getElem, hV₂.1.getElem]
    have hnext₁ := next_drop o htwo₁ hv₁
    split
    · next hillegal =>
      -- a `uint16_t` is never above 65535, so that only 0 is illegal
      have hzero : v.toNat = 0 := by
        have := v.toNat_lt
        omega
      refine wp_seq (hD.illegalLength hring hcut) ?_
      rintro _ t _ ⟨hring, hcut⟩ u hu _
      refine hstop u (hring.of_rely (hD.rely hu)) (hD.stable hcut hu) ?_
      rw [hnext₁, if_neg (fun h => h.1 hzero)]
    · next hlegal =>
      have hm : (v.toUInt32 + 2).toNat = v.toNat + 2 := by
        have := v.toNat_lt
        rw [UInt32.toNat_add, UInt16.toNat_toUInt32, htwo]
        omega
      split
      · next hincomplete =>
        -- `available_read < msg_len`
        rw [UInt32.lt_iff_toNat_lt, hm] at hincomplete
        intro u hu _
        refine hstop u (hring.of_rely (hD.rely hu)) (hD.stable hcut hu) ?_
        rw [hnext₁, if_neg (fun h => by omega)]
      · next hcomplete =>
        rw [UInt32.lt_iff_toNat_lt, hm] at hcomplete
        -- the frame was complete in the first reading, and still is
        have hnext₂ := next_drop o (show c + 2 ≤ V₂.length by omega)
          (k := v.toNat) (by rw [hv])
        rw [if_pos (by omega), ← hm] at hnext₂
        have hf : ds ++ [(V₂.drop c).take (v.toUInt32 + 2).toNat] <+: (framing o).parse V₂ :=
          Format.append_prefix_parse (hds₁.trans (Format.parse_isPrefix hV₂.1)) (hc ▸ hnext₂)
        -- both ways of handing the frame over leave the same view
        have hdone : ∀ u w, (∃ r', ReaderView quiet V₂ r' (c + (v.toUInt32 + 2).toNat) (ring u) ∧
            cut (ds ++ [(V₂.drop c).take (v.toUInt32 + 2).toNat]) u) → D.rely u w →
            CutPost o quiet ring cut V ds true w := by
          rintro u w ⟨r', hring, hcut⟩ hu
          have hflat : (ds ++ [(V₂.drop c).take (v.toUInt32 + 2).toNat]).flatten.length =
              c + (v.toUInt32 + 2).toNat := by
            rw [List.flatten_append, List.length_append, ← hc, List.flatten_singleton,
              List.length_take, List.length_drop]
            omega
          refine ⟨V₂, r', _, hV₁.trans hV₂, ?_, hD.stable hcut hu, hf, by simp⟩
          rw [hflat]
          exact hring.of_rely (hD.rely hu)
        split
        · next hpiece =>
          rw [ge_iff_le, UInt32.le_iff_toNat_le, hn, seriesLen] at hpiece
          refine wp_seq (hD.wp_handOverInPlace hring hcut (by omega) (by omega) hf) ?_
          exact fun _ t _ h u hu _ => hdone t u h hu
        · next hpiece =>
          rw [ge_iff_le, UInt32.le_iff_toNat_le, hn, seriesLen] at hpiece
          rw [seriesLen] at hn
          refine wp_seq (hD.wp_handOverCopied hring hcut (by omega) (by omega) (by omega)
            (by omega) hf) ?_
          exact fun _ t _ h u hu _ => hdone t u h hu

end CutRules

end Round

/-! ## The worker -/

/-- What the worker knows: at least `V` has been published, where it stands in it, the frames
    it has handed over, and how its run began. -/
structure WorkerView (quiet : Prop) (V : List UInt8) (r : UInt32) (c : ℕ)
    (ds : List (List UInt8)) (R : List UInt8) (s : Receiver) : Prop where
  ring : ReaderView quiet V r c s.ring
  delivered : s.delivered = ds
  runStart : s.runStart = R

section Worker

variable {V R : List UInt8} {r : UInt32} {c : ℕ} {ds : List (List UInt8)} {s : Receiver}

theorem within_reader_worker :
    Within (readerDisc sh ndebug strict quiet) (workerDisc sh o ndebug strict quiet) recvRing
      ringOfReceiver where
  sem := by
    rintro a t r _ ⟨h⟩
    exact ⟨_, h, rfl⟩
  safe _ _ h := h
  rely _ _ h := ⟨h.1.ring, h.2⟩
  inv _ h := h.coherent

theorem WorkerView.of_rely {t : Receiver} (h : WorkerView quiet V r c ds R s)
    (hst : (workerDisc sh o ndebug strict quiet).rely s t) : WorkerView quiet V r c ds R t :=
  ⟨h.ring.of_rely (within_reader_worker.rely s t hst), hst.1.delivered.trans h.delivered,
    hst.1.runStart.trans h.runStart⟩

/-- A program of the reader in the worker. -/
theorem wp_onReceiver {α : Type} {p : Prog RingBuffer.sig α} {Q : α → Shared → Prop}
    (hs : s.delivered = ds ∧ s.runStart = R)
    (h : wp (readerDisc sh ndebug strict quiet) p Q s.ring) :
    wp (workerDisc sh o ndebug strict quiet) (onReceiver p)
      (fun a t => Q a t.ring ∧ t.delivered = ds ∧ t.runStart = R) s := by
  refine wp_lift within_reader_worker (P := fun t => t.delivered = ds ∧ t.runStart = R) ?_ ?_ h hs
  · exact fun t u ht htu _ => ⟨htu.1.delivered.trans ht.1, htu.1.runStart.trans ht.2⟩
  · intro t x ht hinv hx hguar
    have hpub : x.published = t.ring.published := hguar.published
    refine ⟨⟨hx, hinv.taken_le, ?_, ?_, hinv.hasReadPacket⟩, ⟨⟨hguar, rfl, List.prefix_rfl⟩, rfl⟩,
      ht⟩
    · show x.published <+: _
      rw [hpub]
      exact hinv.published
    · show t.delivered <+: (framing o).parse x.published
      rw [hpub]
      exact hinv.delivered

/-- Handing over the next frame of the parse. -/
theorem wp_signalReadPacket {f : List UInt8} (hs : WorkerView quiet V r c ds R s)
    (hf : ds ++ [f] <+: (framing o).parse V) :
    wp (workerDisc sh o ndebug strict quiet) (signalReadPacket f)
      (fun _ t => WorkerView quiet V r c (ds ++ [f]) R t) s := by
  intro t hst ht
  have hview := hs.of_rely hst
  refine ⟨trivial, ?_⟩
  rintro _ _ ⟨⟩
  have hdel : t.delivered ++ [f] <+: (framing o).parse t.ring.published := by
    rw [hview.delivered]
    exact hf.trans (Format.parse_isPrefix hview.ring.published.1)
  refine ⟨⟨ht.coherent, ht.taken_le, ht.published, hdel, ht.hasReadPacket⟩,
    ⟨⟨.refl _, rfl, List.prefix_rfl⟩, rfl⟩, fun u hu _ => ?_⟩
  have hnew : WorkerView quiet V r c (ds ++ [f]) R { t with delivered := t.delivered ++ [f] } :=
    ⟨hview.ring, by rw [hview.delivered], hview.runStart⟩
  exact hnew.of_rely hu

/-- `SignalReadPacket` is set. -/
theorem wp_testReadPacket (hs : WorkerView quiet V r c ds R s) :
    wp (workerDisc sh o ndebug strict quiet) (testReadPacket.lift recvCtrl)
      (fun set t => ReaderView quiet V r c t.ring ∧ (t.delivered = ds ∧ t.runStart = R) ∧
        (set = false → ∀ ds', t.delivered = ds' ∧ t.runStart = R)) s := by
  intro t hst ht
  refine ⟨trivial, ?_⟩
  rintro _ _ ⟨⟩
  refine ⟨ht, ⟨.refl _, rfl⟩, fun u hu _ => ?_⟩
  have hview := (hs.of_rely hst).of_rely hu
  refine ⟨hview.ring, ⟨hview.delivered, hview.runStart⟩, fun hunset => ?_⟩
  exact absurd (hunset.symm.trans ht.hasReadPacket) (by decide)

/-! ### One round of the deframer -/

/-- The rules of a round of the deframer, for the worker whose run began with `R`. -/
theorem cutRules_worker (R : List UInt8) :
    CutRules sh o ndebug strict quiet (workerDisc sh o ndebug strict quiet) Receiver.ring
      (fun ds s => s.delivered = ds ∧ s.runStart = R) where
  rely h := within_reader_worker.rely _ _ h
  stable h hst := ⟨hst.1.delivered.trans h.1, hst.1.runStart.trans h.2⟩
  onReceiver hcut h := wp_onReceiver hcut h
  illegalLength hring hcut := by
    refine wp_mono ?_ (wp_ctrl_worker illegalLength (P := WorkerView quiet _ _ _ _ R)
      (fun _ _ h hst => h.of_rely hst) (fun _ _ h => ⟨h.ring, h.delivered, h.runStart⟩)
      ⟨hring, hcut.1, hcut.2⟩)
    exact fun _ t _ h => ⟨h.ring, h.delivered, h.runStart⟩
  testReadPacket hring hcut := wp_testReadPacket ⟨hring, hcut.1, hcut.2⟩
  signalReadPacket hring hcut hf := by
    refine wp_mono ?_ (wp_signalReadPacket ⟨hring, hcut.1, hcut.2⟩ hf)
    exact fun _ t _ h => ⟨h.ring, h.delivered, h.runStart⟩

/-- What a round of the deframer has done when it returns: it has handed over one more frame, or
    the parse of what it has seen published is through. -/
def RoundPost (o : ByteOrder) (quiet : Prop) (V : List UInt8) (ds : List (List UInt8))
    (R : List UInt8) (again : Bool) (t : Receiver) : Prop :=
  ∃ V' r' ds', Grows quiet V V' ∧ WorkerView quiet V' r' ds'.flatten.length ds' R t ∧
    ds' <+: (framing o).parse V' ∧
    if again then ds'.length = ds.length + 1 else ds' = (framing o).parse V'

/-- **One round of the deframer**, whatever is published meanwhile. -/
theorem wp_tryProcessBufferedData (hs : WorkerView quiet V r c ds R s)
    (hc : c = ds.flatten.length) (hds : ds <+: (framing o).parse V)
    (hroom : strict → quiet ∧ V.length < c + sh.cap) :
    wp (workerDisc sh o ndebug strict quiet) (tryProcessBufferedData sh.toShape o)
      (RoundPost o quiet V ds R) s := by
  refine wp_mono ?_ ((cutRules_worker R).wp_tryProcessBufferedData hs.ring
    ⟨hs.delivered, hs.runStart⟩ hc hds hroom)
  rintro again t _ ⟨V', r', ds', hV', hring, hcut, hds', hagain⟩
  exact ⟨V', r', ds', hV', ⟨hring, hcut.1, hcut.2⟩, hds', hagain⟩

end Worker

/-! ## Reading from the socket

`TryReadDataFromSocket` is verified once, under any discipline that offers the rules below. -/

/-- What a discipline offers to `TryReadDataFromSocket`, called when `P` has been published. `ring`
    is the receiver ring in the state; `entitled goal` is what the network thread knows apart from
    the ring when it has read `goal` from the socket, and `done` what holds when the function has
    returned. -/
structure ReadRules (sh : PowShape) (ndebug : Bool) {σ : Type} (D : Discipline recvSig σ)
    (ring : σ → Shared) (entitled : List UInt8 → σ → Prop) (done : σ → Prop) (P : List UInt8) :
    Prop where
  stable_done : ∀ {s t}, done s → D.rely s t → done t
  /-- A program of the writer -/
  onReceiver : ∀ {α : Type} {p : Prog RingBuffer.sig α} {Q : α → Shared → Prop} {goal s},
    entitled goal s → wp (writerDisc sh ndebug True goal) p Q (ring s) →
    wp D (onReceiver p) (fun a t => Q a (ring t) ∧ entitled goal t) s
  read : ∀ {w arr free s} {len : UInt32}, WriterView sh P w arr free (ring s) → entitled P s →
    wp D (read len) (fun result t => WriterView sh P w arr free (ring t) ∧ match result with
      | .data b => b.len.toNat ≤ len.toNat ∧ entitled (P ++ b.bytes) t
      | _ => entitled P t) s
  onErrorEvent : ∀ {s}, (ring s).published = P → entitled P s →
    wp D (onErrorEvent.lift recvCtrl) (fun _ => done) s
  queueTryProcess : ∀ {goal s}, (ring s).published = goal → entitled goal s →
    wp D ((effect .queueTryProcess).lift recvCtrl) (fun _ => done) s
  /-- Nothing has been read -/
  nothing : ∀ {s}, (ring s).published = P → entitled P s → done s

namespace ReadRules

variable {σ : Type} {D : Discipline recvSig σ} {ring : σ → Shared}
  {entitled : List UInt8 → σ → Prop} {done : σ → Prop} {P : List UInt8} {w : UInt32}
  {arr : ℕ → UInt8} {free : ℕ} {s : σ}

/-- The bytes that `::read` has yielded are published. -/
theorem wp_publishRead (hD : ReadRules sh ndebug D ring entitled done P) {b : Block}
    (hring : WriterView sh P w arr free (ring s)) (hs : entitled (P ++ b.bytes) s)
    (hfit : w.toNat % sh.cap + b.len.toNat ≤ sh.cap) (hlen : b.len.toNat ≤ free) :
    wp D (do
        TcpSocket.onReceiver (storeBytes (w.toNat % sh.cap) b.bytes)
        TcpSocket.onReceiver (consumeSeriesWriteLen sh.toShape b.len)
        (effect .queueTryProcess).lift recvCtrl)
      (fun _ => done) s := by
  rw [← bind_assoc, TcpSocket.onReceiver, TcpSocket.onReceiver, ← lift_bind]
  refine wp_seq (hD.onReceiver hs (wp_fillSpan hring b hfit hlen)) ?_
  rintro _ t _ ⟨⟨arr', hview⟩, hent⟩
  exact hD.queueTryProcess hview.published hent

/-- **`TryReadDataFromSocket`** publishes everything it reads from the socket. -/
theorem wp_tryReadDataFromSocket (hD : ReadRules sh ndebug D ring entitled done P)
    (hring : WriterView sh P w arr free (ring s)) (hs : entitled P s) :
    wp D (tryReadDataFromSocket sh.toShape) (fun _ => done) s := by
  have hidx := sh.mask_lt w
  refine wp_seq (hD.onReceiver hs (wp_availableSeriesWrite hring)) ?_
  rintro n t _ ⟨⟨free', _, hview, hn⟩, hent⟩
  refine wp_seq (hD.onReceiver hent (wp_currentSeriesWriteHead hview)) ?_
  rintro _ t _ ⟨⟨rfl, hview⟩, hent⟩
  refine wp_seq (hD.read hview hent) ?_
  rintro (b | _ | _ | _) t _ ⟨hview, hres⟩
  · -- `::read` stays within the part of the array that is free
    obtain ⟨hle, hent⟩ := hres
    rw [hn, seriesLen] at hle
    exact hD.wp_publishRead hview hent (by omega) (by omega)
  · exact hD.onErrorEvent hview.published hres
  · exact fun u hu _ => hD.stable_done (hD.nothing hview.published hres) hu
  · exact hD.onErrorEvent hview.published hres

end ReadRules

/-! ## The network thread -/

/-- Between two runs of the network thread everything read from the socket is published. -/
structure NetView (s : Receiver) : Prop where
  taken_le : s.taken ≤ s.arrived.length
  published : s.ring.published = s.arrived.take s.taken

theorem NetView.of_rely {s t : Receiver} (h : NetView s) (hst : NetRely s t) : NetView t where
  taken_le := hst.taken ▸ h.taken_le.trans hst.arrived.length_le
  published := by
    rw [hst.ring.published, h.published, hst.taken]
    exact (BoundedFifo.take_of_isPrefix hst.arrived h.taken_le).symm

section Net

variable {s : Receiver}

theorem within_writer_net (goal : List UInt8) :
    Within (writerDisc sh ndebug True goal) (netDisc sh o ndebug) recvRing ringOfReceiver where
  sem := by
    rintro a t r _ ⟨h⟩
    exact ⟨_, h, rfl⟩
  safe _ _ h := h
  rely _ _ h := h.ring
  inv _ h := h.coherent

/-- What the network thread keeps in mind while it works on the ring: how much it has read from
    the socket, and that it is entitled to publish `goal`. -/
structure Entitled (T : ℕ) (goal : List UInt8) (s : Receiver) : Prop where
  taken : s.taken = T
  taken_le : T ≤ s.arrived.length
  goal : goal <+: s.arrived.take T

theorem Entitled.of_rely {T : ℕ} {goal : List UInt8} {t : Receiver} (h : Entitled T goal s)
    (hst : NetRely s t) : Entitled T goal t :=
  ⟨hst.taken.trans h.taken, h.taken_le.trans hst.arrived.length_le,
    h.goal.trans (hst.arrived.take T)⟩

/-- A program of the writer in the network thread. -/
theorem wp_onReceiver_net {α : Type} {T : ℕ} {goal : List UInt8} {p : Prog RingBuffer.sig α}
    {Q : α → Shared → Prop} (hs : Entitled T goal s)
    (h : wp (writerDisc sh ndebug True goal) p Q s.ring) :
    wp (netDisc sh o ndebug) (onReceiver p) (fun a t => Q a t.ring ∧ Entitled T goal t) s := by
  refine wp_lift (within_writer_net goal) (P := Entitled T goal)
    (fun t u ht htu _ => ht.of_rely htu) ?_ h hs
  rintro t x ht hinv hx ⟨hguar, hpub⟩
  refine ⟨⟨hx, hinv.taken_le, ?_, ?_, hinv.hasReadPacket⟩, ⟨⟨hguar, rfl, rfl⟩, rfl⟩,
    ht.taken, ht.taken_le, ht.goal⟩
  · show x.published <+: t.arrived.take t.taken
    rcases hpub with hsame | hgoal
    · rw [hsame]
      exact hinv.published
    · rw [hgoal, ht.taken]
      exact ht.goal
  · exact hinv.delivered.trans (Format.parse_isPrefix hguar.published)

/-- When the network thread has published all it is entitled to. -/
theorem NetView.of_entitled {T : ℕ} {goal : List UInt8} (hs : Entitled T goal s)
    (hpub : s.ring.published = goal) (hlen : goal.length = T) : NetView s where
  taken_le := hs.taken ▸ hs.taken_le
  published := by
    rw [hpub, hs.taken]
    refine hs.goal.eq_of_length ?_
    rw [hlen, List.length_take_of_le hs.taken_le]

/-- Programs on the remaining members do not matter between two runs. -/
theorem wp_ctrl_netView {α : Type} (p : Prog ctrlSig α) (hs : NetView s) :
    wp (netDisc sh o ndebug) (p.lift recvCtrl) (fun _ t => NetView t) s :=
  wp_ctrl_net p (fun _ _ h hst _ => h.of_rely hst) (fun _ _ h => ⟨h.taken_le, h.published⟩) hs

/-- What `::read` yields are the next bytes that have arrived. -/
theorem Entitled.read {P : List UInt8} {t : Receiver} {b : Block} (hs : Entitled P.length P s)
    (hle : b.len.toNat ≤ (s.arrived.drop s.taken).length)
    (hbytes : b.bytes = (s.arrived.drop s.taken).take b.len.toNat)
    (ht : t.taken = s.taken + b.len.toNat) (harr : t.arrived = s.arrived) :
    Entitled (P ++ b.bytes).length (P ++ b.bytes) t := by
  have htaken := hs.taken
  have hlen := hs.taken_le
  rw [List.length_drop, htaken] at hle
  -- all that was read before has been published
  have hP : P = s.arrived.take P.length := hs.goal.eq_of_length (List.length_take_of_le hlen).symm
  have hgoal : P ++ b.bytes = s.arrived.take (P.length + b.len.toNat) := by
    rw [hbytes, htaken, List.take_add, ← hP]
  have hnew : (P ++ b.bytes).length = P.length + b.len.toNat := by
    rw [List.length_append, b.length_eq]
  rw [hnew]
  exact ⟨by rw [ht, htaken], by rw [harr]; omega, by rw [harr, hgoal]⟩

theorem length_read {b : Block} (hbytes : b.bytes = (s.arrived.drop s.taken).take b.len.toNat) :
    b.len.toNat ≤ (s.arrived.drop s.taken).length := by
  rw [← b.length_eq, hbytes]
  exact List.length_take_le' _ _

/-- The rules of a run, for the network thread of this half of the socket. -/
theorem readRules_net (P : List UInt8) :
    ReadRules sh ndebug (netDisc sh o ndebug) Receiver.ring
      (fun goal s => Entitled goal.length goal s) NetView P where
  stable_done h hst := h.of_rely hst
  onReceiver hent h := wp_onReceiver_net hent h
  read hring hent t hst ht := by
    have hview := hring.of_rely hst.ring
    have hent := hent.of_rely hst
    refine ⟨trivial, ?_⟩
    rintro _ _ (_ | _ | @⟨_, _, b, hpos, hle, hbytes⟩ | _ | _ | _ | _ | _)
    · -- only bytes that were read change the state
      have havail := length_read hbytes
      have hnew : Entitled (P ++ b.bytes).length (P ++ b.bytes)
          { t with taken := t.taken + b.len.toNat } := hent.read havail hbytes rfl rfl
      rw [List.length_drop] at havail
      have htaken := ht.taken_le
      refine ⟨⟨ht.coherent, show t.taken + b.len.toNat ≤ t.arrived.length by omega, ?_,
        ht.delivered, ht.hasReadPacket⟩, ⟨⟨.refl _, rfl, rfl⟩, rfl⟩, ?_⟩
      · exact ht.published.trans (List.take_prefix_take_left (Nat.le_add_right _ _))
      · exact fun u hu _ => ⟨hview.of_rely hu.ring, hle, hnew.of_rely hu⟩
    all_goals exact ⟨ht, ⟨.refl _, rfl⟩, fun u hu _ => ⟨hview.of_rely hu.ring, hent.of_rely hu⟩⟩
  onErrorEvent hpub hent := wp_ctrl_netView _ (.of_entitled hent hpub rfl)
  queueTryProcess hpub hent := wp_ctrl_netView _ (.of_entitled hent hpub rfl)
  nothing hpub hent := .of_entitled hent hpub rfl

theorem wp_tryReadDataFromSocket (hs : NetView s) (hinv : s.Inv sh o) :
    wp (netDisc sh o ndebug) (tryReadDataFromSocket sh.toShape) (fun _ t => NetView t) s := by
  have hlen : s.ring.published.length = s.taken := by
    rw [hs.published, List.length_take_of_le hs.taken_le]
  exact (readRules_net s.ring.published).wp_tryReadDataFromSocket
    (WriterView.of_coherent hinv.coherent)
    ⟨hlen.symm, hlen ▸ hs.taken_le, by rw [hlen, ← hs.published]⟩

/-- **One run of the network thread** publishes everything it reads from the socket. -/
theorem wp_onReadEvent (hs : NetView s) :
    wp (netDisc sh o ndebug) (onReadEvent sh.toShape) (fun _ t => NetView t) s := by
  refine wp_seq (wp_ctrl_netView loadState hs) fun state t ht hview => ?_
  split
  · exact wp_tryReadDataFromSocket hview ht
  · exact fun u hu _ => hview.of_rely hu

end Net

end ReechatBase.TcpSocket
