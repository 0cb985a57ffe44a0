import ReechatBase.TcpSocket.Basic
import ReechatBase.RingBuffer.Discipline

/-!
# The sending half of a socket

The producer writes framed messages into `sender_buffer_` with `SendData`; the network thread
passes the bytes to the socket with `TryWriteBufferToSocket`. This file gives the shared state of
the two with its invariant, what each thread relies on, and the specification of each member
function.
-/

namespace ReechatBase.TcpSocket

open Lib Lib.Prog RingBuffer

/-- The state of the sending half; `sent` is everything that `::send` has taken so far. -/
structure Sender where
  ring : Shared
  ctrl : Ctrl
  sent : List UInt8

def ringOfSender : Lens Sender Shared where
  get := Sender.ring
  set x s := { s with ring := x }
  get_set _ _ := rfl
  set_get _ := rfl
  set_set _ _ _ := rfl

/-- The effect of an action. `::send` takes any non-empty prefix of the bytes, or fails. -/
inductive SendSem (sh : PowShape) (ndebug : Bool) :
    (a : sendSig.Act) → Sender → sendSig.Res a → Sender → Prop
  | ring {a : RingBuffer.Act} {s : Sender} {r : RingBuffer.sig.Res a} {x : Shared} :
      Shared.exec sh ndebug a s.ring = some (r, x) →
      SendSem sh ndebug (.ring a) s r { s with ring := x }
  | ctrl {a : CtrlAct} {s : Sender} :
      SendSem sh ndebug (.ctrl a) s (Ctrl.exec a s.ctrl).1 { s with ctrl := (Ctrl.exec a s.ctrl).2 }
  | sendTake {bytes : List UInt8} {s : Sender} {n : UInt32} :
      0 < n.toNat → n.toNat ≤ bytes.length →
      SendSem sh ndebug (.send bytes) s (.sent n) { s with sent := s.sent ++ bytes.take n.toNat }
  | sendAgain {bytes : List UInt8} {s : Sender} : SendSem sh ndebug (.send bytes) s .again s
  | sendError {bytes : List UInt8} {s : Sender} : SendSem sh ndebug (.send bytes) s .error s

/-- Actions performed alone, where `::send` takes at most `chunk` bytes. -/
def Sender.exec (sh : PowShape) (ndebug : Bool) (chunk : ℕ) : Exec sendSig Sender
  | .ring a, s => (Shared.exec sh ndebug a s.ring).map fun rx => (rx.1, { s with ring := rx.2 })
  | .ctrl a, s => some ((Ctrl.exec a s.ctrl).1, { s with ctrl := (Ctrl.exec a s.ctrl).2 })
  | .send bytes, s =>
    let n := UInt32.ofNat (min chunk bytes.length)
    if 0 < n.toNat ∧ n.toNat ≤ bytes.length then
      some (.sent n, { s with sent := s.sent ++ bytes.take n.toNat })
    else
      some (.again, s)

theorem Sender.sem_of_exec {sh : PowShape} {ndebug : Bool} {chunk : ℕ} {a : sendSig.Act}
    {s t : Sender} {r : sendSig.Res a} (h : Sender.exec sh ndebug chunk a s = some (r, t)) :
    SendSem sh ndebug a s r t := by
  cases a with
  | ring a =>
    obtain ⟨⟨r', x⟩, hx, heq⟩ := Option.map_eq_some_iff.mp h
    cases heq
    exact .ring hx
  | ctrl a =>
    cases h
    exact .ctrl
  | send bytes =>
    simp only [Sender.exec] at h
    split at h
    · next hn =>
      cases h
      exact .sendTake hn.1 hn.2
    · cases h
      exact .sendAgain

/-- The invariant of the sending half: what was sent was published. -/
structure Sender.Inv (sh : PowShape) (s : Sender) : Prop where
  coherent : Coherent sh s.ring
  sent : s.sent <+: s.ring.published

/-- The discipline of the producer, entitled to publish up to `goal`. -/
def producerDisc (sh : PowShape) (ndebug : Bool) (goal : List UInt8) :
    Discipline sendSig Sender where
  sem := SendSem sh ndebug
  inv := Sender.Inv sh
  rely s t := WriterRely s.ring t.ring
  guar s t := ReaderRely s.ring t.ring ∧ t.sent = s.sent ∧
    (t.ring.published = s.ring.published ∨ t.ring.published = goal)
  safe
    | .ring a, s => writerSafe sh True a s.ring
    | _, _ => True
  rely_refl s := .refl s.ring
  rely_trans h h' := h.trans h'

/-- The discipline of the network thread. -/
def sendNetDisc (sh : PowShape) (ndebug : Bool) : Discipline sendSig Sender where
  sem := SendSem sh ndebug
  inv := Sender.Inv sh
  rely s t := ReaderRely s.ring t.ring ∧ t.sent = s.sent
  guar s t := WriterRely s.ring t.ring ∧ s.sent <+: t.sent
  safe
    | .ring a, s => readerSafe sh True a s.ring
    | _, _ => True
  rely_refl s := ⟨.refl s.ring, rfl⟩
  rely_trans h h' := ⟨h.1.trans h'.1, h'.2.trans h.2⟩

variable {sh : PowShape} {o : ByteOrder} {ndebug : Bool}

/-- An action on the remaining members disturbs nothing. -/
theorem wp_ctrl_sender {α : Type} {D : Discipline sendSig Sender} (p : Prog ctrlSig α)
    {P : Sender → Prop} (hsem : D.sem = SendSem sh ndebug) (hinv : D.inv = Sender.Inv sh)
    (hsafe : ∀ a s, D.safe (.ctrl a) s) (hguar : ∀ s c, D.guar s { s with ctrl := c })
    (hstable : ∀ s t, P s → D.rely s t → P t) (hctrl : ∀ s c, P s → P { s with ctrl := c })
    {s : Sender} (hs : P s) : wp D (p.lift sendCtrl) (fun _ t => P t) s := by
  induction p generalizing s with
  | ret a => exact fun t hst _ => hstable s t hs hst
  | act a k ih =>
    intro t hst ht
    refine ⟨hsafe a t, fun r u hru => ?_⟩
    rw [hsem] at hru
    rw [hinv] at ht ⊢
    cases hru
    exact ⟨⟨ht.coherent, ht.sent⟩, hguar t _, ih _ (hctrl t _ (hstable s t hs hst))⟩

/-! ## Rounds of TryWriteBufferToSocket

A round is verified once, under any discipline that offers the rules below. -/

/-- What a discipline offers to a round of `TryWriteBufferToSocket`. `ring` is the sender ring in
    the state; `sent n` is what the network thread knows apart from the ring when `n` bytes have
    been sent, `done` what holds when the function has returned, and `start` what had been
    published when it was called. -/
structure SendRules (sh : PowShape) (ndebug : Bool) {σ : Type} (D : Discipline sendSig σ)
    (ring : σ → Shared) (sent : ℕ → σ → Prop) (done : σ → Prop) (start : List UInt8) : Prop where
  rely : ∀ {s t}, D.rely s t → (readerDisc sh ndebug True False).rely (ring s) (ring t)
  stable : ∀ {n s t}, sent n s → D.rely s t → sent n t
  stable_done : ∀ {s t}, done s → D.rely s t → done t
  /-- A program of the reader -/
  onSender : ∀ {α : Type} {p : Prog RingBuffer.sig α} {Q : α → Shared → Prop} {n s}, sent n s →
    wp (readerDisc sh ndebug True False) p Q (ring s) →
    wp D (onSender p) (fun a t => Q a (ring t) ∧ sent n t) s
  send : ∀ {V r c s bytes}, ReaderView False V r c (ring s) → sent c s → bytes <+: V.drop c →
    c ≤ V.length → wp D (send bytes) (fun result t => match result with
      | .sent n => n.toNat ≤ bytes.length ∧ ReaderView False V r c (ring t) ∧ sent (c + n.toNat) t
      | _ => ReaderView False V r c (ring t) ∧ sent c t) s
  onErrorEvent : ∀ {V r c s}, ReaderView False V r c (ring s) → sent c s →
    wp D (onErrorEvent.lift sendCtrl) (fun _ => done) s
  eventAddWrite : ∀ {V r c s}, ReaderView False V r c (ring s) → sent c s →
    wp D ((effect .eventAddWrite).lift sendCtrl) (fun _ => done) s
  /-- Everything seen published has been sent -/
  finished : ∀ {V r s}, start <+: V → ReaderView False V r V.length (ring s) → sent V.length s →
    done s

namespace SendRules

variable {σ : Type} {D : Discipline sendSig σ} {ring : σ → Shared} {sent : ℕ → σ → Prop}
  {done : σ → Prop} {start V : List UInt8} {r : UInt32} {c : ℕ} {s : σ}

/-- What the network thread knows between two rounds: the span it is about to send. -/
def Sending (sh : PowShape) (ring : σ → Shared) (sent : ℕ → σ → Prop) (start : List UInt8)
    (available : UInt32) (s : σ) : Prop :=
  ∃ V r c, start <+: V ∧ ReaderView False V r c (ring s) ∧ sent c s ∧ c ≤ V.length ∧
    available.toNat = seriesLen sh.cap (r.toNat % sh.cap) (V.length - c)

theorem sending_of_rely (hD : SendRules sh ndebug D ring sent done start) {available : UInt32}
    {t : σ} (h : Sending sh ring sent start available s) (hst : D.rely s t) :
    Sending sh ring sent start available t := by
  obtain ⟨V, r, c, hstart, hring, hsent, hc, hlen⟩ := h
  exact ⟨V, r, c, hstart, hring.of_rely (hD.rely hst), hD.stable hsent hst, hc, hlen⟩

/-- The load of `available_read` before a round. -/
theorem wp_loadAvailable (hD : SendRules sh ndebug D ring sent done start) (hstart : start <+: V)
    (hring : ReaderView False V r c (ring s)) (hsent : sent c s) :
    wp D (TcpSocket.onSender (availableSeriesRead sh.toShape))
      (Sending sh ring sent start) s := by
  refine wp_mono ?_ (hD.onSender hsent (wp_availableSeriesRead hring))
  rintro n t _ ⟨⟨V', hV, hring, hc, hn⟩, hsent⟩
  exact ⟨V', r, c, hstart.trans hV.1, hring, hsent, hc, hn⟩

/-- **One round of `TryWriteBufferToSocket`** sends a prefix of the span and consumes it, or the
    function returns. -/
theorem wp_tryWriteRound (hD : SendRules sh ndebug D ring sent done start) {available : UInt32}
    (h : Sending sh ring sent start available s) :
    wp D (tryWriteRound sh.toShape available) (fun next t => match next with
      | some available' => Sending sh ring sent start available' t
      | none => done t) s := by
  obtain ⟨V, r, c, hstart, hring, hsent, hc, hlen⟩ := h
  have hidx := sh.mask_lt r
  have hspan := hlen
  rw [seriesLen] at hspan
  rw [tryWriteRound]
  split
  · refine wp_seq (hD.onSender hsent (wp_currentSeriesReadHead hring)) ?_
    rintro _ t _ ⟨⟨rfl, hring⟩, hsent⟩
    refine wp_seq (hD.onSender hsent (wp_loadBytes_head hring (n := available.toNat)
      (by omega) (by omega))) ?_
    rintro _ t _ ⟨⟨rfl, hring⟩, hsent⟩
    refine wp_seq (hD.send hring hsent (List.take_prefix _ _) hc) ?_
    -- `::send` may take less than the span
    rintro (n | _ | _) t _ hres
    · obtain ⟨hle, hring, hsent⟩ := hres
      rw [List.length_take, List.length_drop] at hle
      refine wp_seq (hD.onSender hsent (wp_consumeSeriesReadLen hring (by omega) (by omega))) ?_
      rintro _ t _ ⟨hring, hsent⟩
      refine wp_seq (hD.wp_loadAvailable hstart hring hsent) ?_
      exact fun n t _ h u hu _ => hD.sending_of_rely h hu
    · -- `EAGAIN`: the event brings the function back
      exact wp_seq (hD.eventAddWrite hres.1 hres.2) fun _ _ _ h _ hu _ => hD.stable_done h hu
    · -- any other error closes the connection
      exact wp_seq (hD.onErrorEvent hres.1 hres.2) fun _ _ _ h _ hu _ => hD.stable_done h hu
  · next hzero =>
    -- the span is empty, so nothing is left of what has been seen published
    have hnone : available.toNat = 0 := by
      rw [gt_iff_lt, UInt32.lt_iff_toNat_lt] at hzero
      exact Nat.eq_zero_of_not_pos hzero
    obtain rfl : c = V.length := by omega
    exact fun t hst _ => hD.stable_done (hD.finished hstart hring hsent) hst

end SendRules

/-! ## The network thread -/

section Net

variable {V : List UInt8} {r : UInt32} {c : ℕ} {s : Sender}

theorem within_reader_sendNet :
    Within (readerDisc sh ndebug True False) (sendNetDisc sh ndebug) sendRing ringOfSender where
  sem := by
    rintro a t r _ ⟨h⟩
    exact ⟨_, h, rfl⟩
  safe _ _ h := h
  rely _ _ h := ⟨h.1, h.1.published, False.elim⟩
  inv _ h := h.coherent

/-- What the network thread knows: where it stands in the ring, and how much has been sent. -/
structure SendView (V : List UInt8) (r : UInt32) (c sentLen : ℕ) (s : Sender) : Prop where
  ring : ReaderView False V r c s.ring
  sent : s.sent.length = sentLen

theorem SendView.of_rely {sentLen : ℕ} {t : Sender} (h : SendView V r c sentLen s)
    (hst : (sendNetDisc sh ndebug).rely s t) : SendView V r c sentLen t :=
  ⟨h.ring.of_rely (within_reader_sendNet.rely s t hst), hst.2.symm ▸ h.sent⟩

/-- A program of the reader in the network thread. -/
theorem wp_onSender_net {α : Type} {sentLen : ℕ} {p : Prog RingBuffer.sig α}
    {Q : α → Shared → Prop} (hs : s.sent.length = sentLen)
    (h : wp (readerDisc sh ndebug True False) p Q s.ring) :
    wp (sendNetDisc sh ndebug) (onSender p)
      (fun a t => Q a t.ring ∧ t.sent.length = sentLen) s := by
  refine wp_lift within_reader_sendNet (P := fun t => t.sent.length = sentLen) ?_ ?_ h hs
  · exact fun t u ht htu _ => htu.2.symm ▸ ht
  · intro t x ht hinv hx hguar
    -- the reader consumes only, so that what was sent stays a prefix
    have hpub : x.published = t.ring.published := hguar.published
    refine ⟨⟨hx, ?_⟩, ⟨hguar, List.prefix_rfl⟩, ht⟩
    show t.sent <+: x.published
    rw [hpub]
    exact hinv.sent

/-- What the network thread knows between two rounds of its loop: the span it is about to send. -/
def Sending (sh : PowShape) (available : UInt32) (s : Sender) : Prop :=
  ∃ V r c, SendView V r c c s ∧ c ≤ V.length ∧
    available.toNat = seriesLen sh.cap (r.toNat % sh.cap) (V.length - c)

/-- Between two runs of the network thread everything sent is consumed. -/
def SendIdle (s : Sender) : Prop :=
  s.sent.length = s.ring.consumed

theorem SendIdle.of_rely {t : Sender} (h : SendIdle s) (hst : (sendNetDisc sh ndebug).rely s t) :
    SendIdle t := by
  rw [SendIdle, hst.2, hst.1.consumed]
  exact h

theorem Sending.of_rely {available : UInt32} {t : Sender} (h : Sending sh available s)
    (hst : (sendNetDisc sh ndebug).rely s t) : Sending sh available t := by
  obtain ⟨V, r, c, hview, hc, hlen⟩ := h
  exact ⟨V, r, c, hview.of_rely hst, hc, hlen⟩

theorem wp_ctrl_sendIdle {α : Type} (p : Prog ctrlSig α) (hs : SendIdle s) :
    wp (sendNetDisc sh ndebug) (p.lift sendCtrl) (fun _ t => SendIdle t) s :=
  wp_ctrl_sender p rfl rfl (fun _ _ => trivial)
    (fun t _ => (⟨.refl _, List.prefix_rfl⟩ : WriterRely t.ring t.ring ∧ t.sent <+: t.sent))
    (fun _ _ h hst => h.of_rely hst) (fun _ _ h => h) hs

/-- `::send` takes a prefix of the span. -/
theorem wp_send {bytes : List UInt8} (hs : SendView V r c c s)
    (hbytes : bytes <+: V.drop c) (hc : c ≤ V.length) :
    wp (sendNetDisc sh ndebug) (send bytes) (fun result t => match result with
      | .sent n => n.toNat ≤ bytes.length ∧ SendView V r c (c + n.toNat) t
      | _ => SendView V r c c t) s := by
  intro t hst ht
  have hview := hs.of_rely hst
  refine ⟨trivial, ?_⟩
  rintro _ _ (_ | _ | @⟨_, _, n, hpos, hle⟩ | _ | _)
  · -- what was sent before is what the worker has consumed
    have hsent : t.sent = V.take c := by
      have hpre := hview.ring.published.1
      have hlen : t.sent.length = (V.take c).length := by
        rw [List.length_take_of_le hc, hview.sent]
      have hsame : t.sent <+: V.take c :=
        List.prefix_of_prefix_length_le ht.sent ((List.take_prefix c V).trans hpre) hlen.le
      exact hsame.eq_of_length hlen
    have hnew : t.sent ++ bytes.take n.toNat <+: V := by
      rw [hsent]
      conv_rhs => rw [← List.take_append_drop c V]
      exact (List.prefix_append_right_inj _).mpr ((List.take_prefix _ _).trans hbytes)
    refine ⟨⟨ht.coherent, hnew.trans hview.ring.published.1⟩, ⟨.refl _, List.prefix_append _ _⟩,
      fun u hu _ => ⟨hle, ?_⟩⟩
    have hlen : (t.sent ++ bytes.take n.toNat).length = c + n.toNat := by
      rw [List.length_append, hview.sent, List.length_take_of_le hle]
    exact SendView.of_rely (s := { t with sent := t.sent ++ bytes.take n.toNat })
      ⟨hview.ring, hlen⟩ hu
  -- without a byte taken nothing has changed
  all_goals exact ⟨ht, ⟨.refl _, List.prefix_rfl⟩, fun u hu _ => hview.of_rely hu⟩

/-- The rules of a round, for the network thread of this half of the socket. -/
theorem sendRules_net :
    SendRules sh ndebug (sendNetDisc sh ndebug) Sender.ring (fun n s => s.sent.length = n) SendIdle
      [] where
  rely h := within_reader_sendNet.rely _ _ h
  stable h hst := hst.2.symm ▸ h
  stable_done h hst := h.of_rely hst
  onSender hsent h := wp_onSender_net hsent h
  send hring hsent hbytes hc := by
    refine wp_mono ?_ (wp_send ⟨hring, hsent⟩ hbytes hc)
    rintro (n | _ | _) t _ h
    · exact ⟨h.1, h.2.ring, h.2.sent⟩
    · exact ⟨h.ring, h.sent⟩
    · exact ⟨h.ring, h.sent⟩
  onErrorEvent hring hsent := wp_ctrl_sendIdle _ (hsent.trans hring.consumed.symm)
  eventAddWrite hring hsent := wp_ctrl_sendIdle _ (hsent.trans hring.consumed.symm)
  finished _ hring hsent := hsent.trans hring.consumed.symm

theorem sending_iff {available : UInt32} : Sending sh available s ↔
    SendRules.Sending sh Sender.ring (fun n s => s.sent.length = n) [] available s := by
  constructor
  · rintro ⟨V, r, c, hview, hc, hlen⟩
    exact ⟨V, r, c, List.nil_prefix, hview.ring, hview.sent, hc, hlen⟩
  · rintro ⟨V, r, c, _, hring, hsent, hc, hlen⟩
    exact ⟨V, r, c, ⟨hring, hsent⟩, hc, hlen⟩

theorem wp_tryWriteBegin (hs : SendIdle s) :
    wp (sendNetDisc sh ndebug) (tryWriteBegin sh.toShape) (fun n t => Sending sh n t) s := by
  simp only [sending_iff]
  exact sendRules_net.wp_loadAvailable List.nil_prefix
    (⟨.refl _ _, rfl, rfl⟩ : ReaderView False s.ring.published _ s.ring.consumed s.ring) hs

/-- **One round of `TryWriteBufferToSocket`** sends a prefix of the span and consumes it. -/
theorem wp_tryWriteRound {available : UInt32} (hs : Sending sh available s) :
    wp (sendNetDisc sh ndebug) (tryWriteRound sh.toShape available) (fun next t => match next with
      | some available' => Sending sh available' t
      | none => SendIdle t) s := by
  refine wp_mono ?_ (sendRules_net.wp_tryWriteRound (sending_iff.mp hs))
  rintro (_ | available') t _ h
  · exact h
  · exact sending_iff.mpr h

end Net

/-! ## The producer -/

/-- What the producer passes to `SendData`: room for the header and at least one byte of payload,
    and at most as much as the header can announce. -/
structure Message where
  bytes : List UInt8
  three_le : 3 ≤ bytes.length
  le : bytes.length ≤ 65537

namespace Message

variable (m : Message)

/-- The argument `len`. -/
def len : UInt64 := UInt64.ofNat m.bytes.length

/-- The message with the header over its first two bytes. -/
def frame (o : ByteOrder) : List UInt8 :=
  o.header (m.len - 2).toUInt16 ++ m.bytes.drop 2

@[simp] theorem len_toNat : m.len.toNat = m.bytes.length := by
  have hle := m.le
  have hlt : m.bytes.length < 2 ^ 64 := by omega
  exact UInt64.toNat_ofNat_of_lt' hlt

theorem header_toNat : ((m.len - 2).toUInt16).toNat = m.bytes.length - 2 := by
  have hge := m.three_le
  have hle := m.le
  have htwo : (2 : UInt64) ≤ m.len := by
    rw [UInt64.le_iff_toNat_le, m.len_toNat]
    exact Nat.le_trans (by decide) hge
  -- neither the subtraction nor the cast to `uint16_t` wraps
  rw [UInt64.toNat_toUInt16, UInt64.toNat_sub_of_le _ _ htwo, m.len_toNat,
    Nat.mod_eq_of_lt]
  · rfl
  · show m.bytes.length - 2 < 65536
    omega

@[simp] theorem length_frame : (m.frame o).length = m.bytes.length := by
  have hge := m.three_le
  have hhead : (o.header (m.len - 2).toUInt16).length = 2 := by cases o <;> rfl
  rw [frame, List.length_append, hhead, List.length_drop]
  omega

end Message

/-- Reading a header back. -/
theorem value_header (o : ByteOrder) (v : UInt16) :
    ∃ b₀ b₁, o.header v = [b₀, b₁] ∧ o.value b₀ b₁ = v := by
  have hv := v.toNat_lt
  cases o with
  | little =>
    refine ⟨v.toUInt8, (v / 256).toUInt8, rfl, UInt16.toNat_inj.mp ?_⟩
    simp [ByteOrder.value]
    omega
  | big =>
    refine ⟨(v / 256).toUInt8, v.toUInt8, rfl, UInt16.toNat_inj.mp ?_⟩
    simp [ByteOrder.value]
    omega

/-- A message with its header is a frame of the connection. -/
theorem Message.isFrame (m : Message) (o : ByteOrder) : (framing o).IsFrame (m.frame o) := by
  have hge := m.three_le
  have hlen : (m.frame o).length = m.bytes.length := m.length_frame
  obtain ⟨b₀, b₁, hhead, hvalue⟩ := value_header o (m.len - 2).toUInt16
  have hpay : (framing o).payloadLen ((m.frame o).take 2) = m.bytes.length - 2 := by
    rw [Message.frame, hhead, ← m.header_toNat, ← hvalue]
    rfl
  have hfl : (framing o).frameLen (m.frame o) = m.bytes.length := by
    have hsum := congrArg (2 + ·) hpay
    refine Eq.trans hsum ?_
    show 2 + (m.bytes.length - 2) = m.bytes.length
    omega
  -- the length in the header takes in the whole message
  refine Framing.Format.next_eq_some.mpr ⟨?_, ?_, ?_, ?_⟩
  · show 2 ≤ (m.frame o).length
    omega
  · refine fun hzero => ?_
    have := hpay.symm.trans hzero
    omega
  · rw [hfl, hlen]
  · rw [hfl, ← hlen, List.take_length]

section Producer

variable {goal P : List UInt8} {w : UInt32} {arr : ℕ → UInt8} {free : ℕ} {s : Sender}

theorem within_writer_producer (goal : List UInt8) :
    Within (writerDisc sh ndebug True goal) (producerDisc sh ndebug goal) sendRing
      ringOfSender where
  sem := by
    rintro a t r _ ⟨h⟩
    exact ⟨_, h, rfl⟩
  safe _ _ h := h
  rely _ _ h := h
  inv _ h := h.coherent

/-- A program of the writer in the producer. -/
theorem wp_onSender_producer {α : Type} {p : Prog RingBuffer.sig α} {Q : α → Shared → Prop}
    (h : wp (writerDisc sh ndebug True goal) p Q s.ring) :
    wp (producerDisc sh ndebug goal) (onSender p) (fun a t => Q a t.ring) s := by
  refine wp_mono (fun _ _ _ h => h.1) (wp_lift (within_writer_producer goal) (P := fun _ => True)
    (fun _ _ _ _ _ => trivial) ?_ h trivial)
  rintro t x - hinv hx ⟨hguar, hpub⟩
  exact ⟨⟨hx, hinv.sent.trans hguar.published⟩, ⟨hguar, rfl, hpub⟩, trivial⟩

/-- The buffer after `SendData` has written the header: a `uint16_t` over its first two bytes. -/
def stamped (o : ByteOrder) (data : List UInt8) (len : UInt64) : List UInt8 :=
  o.header (len - 2).toUInt16 ++ data.drop 2

theorem header_length (o : ByteOrder) (v : UInt16) : (o.header v).length = 2 := by
  cases o <;> rfl

/-- The part of the stamped buffer that `WriteContent` receives has `len` bytes. -/
theorem length_take_stamped {data : List UInt8} {len : UInt64} (hlen : data.length = len.toNat) :
    ((stamped o data len).take len.toNat).length = len.toNat := by
  rw [List.length_take, stamped, List.length_append, header_length, List.length_drop]
  omega

/-- Posting `TryWriteBufferToSocket` publishes nothing. -/
theorem wp_runTryWrite {V : List UInt8} (hs : s.ring.published = V) :
    wp (producerDisc sh ndebug goal) ((effect .runTryWrite).lift sendCtrl)
      (fun _ t => t.ring.published = V) s := by
  have hguar : ∀ u (c : Ctrl), (producerDisc sh ndebug goal).guar u { u with ctrl := c } :=
    fun u _ => ⟨.refl u.ring, rfl, .inl rfl⟩
  exact wp_ctrl_sender _ rfl rfl (fun _ _ => trivial) hguar
    (P := fun t => t.ring.published = V) (fun u v h hst => hst.published.trans h)
    (fun _ _ h => h) hs

/-- **`SendData`** publishes the first `len` bytes of the stamped buffer and returns true, or
    publishes nothing and returns false. -/
theorem wp_sendData_stamped {data : List UInt8} {len : UInt64} (hlen : data.length = len.toNat)
    (hs : WriterView sh P w arr free s.ring) :
    wp (producerDisc sh ndebug (P ++ (stamped o data len).take len.toNat))
      (sendData sh.toShape o data len) (fun ok t =>
        t.ring.published = if ok then P ++ (stamped o data len).take len.toNat else P) s := by
  rw [sendData]
  split
  · exact fun u hu _ => hu.published.trans hs.published
  next hlong =>
  rw [gt_iff_lt, UInt64.lt_iff_toNat_lt] at hlong
  have hlong : ¬ 65537 < len.toNat := hlong
  refine wp_seq (wp_onSender_producer (wp_availableWrite hs)) ?_
  rintro n t _ ⟨_, hview⟩
  split
  · exact fun u hu _ => hu.published.trans hview.published
  next hroom =>
  -- `len + 2` does not wrap
  have hsum : (len + 2).toNat = len.toNat + 2 := by
    have hadd : (len + 2).toNat = (len.toNat + 2) % 2 ^ 64 := UInt64.toNat_add _ _
    rw [hadd, Nat.mod_eq_of_lt (by omega)]
  rw [UInt64.lt_iff_toNat_lt, UInt32.toNat_toUInt64, hsum] at hroom
  have hlen32 : len.toUInt32.toNat = len.toNat := by
    rw [UInt64.toNat_toUInt32, Nat.mod_eq_of_lt (by omega)]
  let b : Block := ⟨(stamped o data len).take len.toNat, len.toUInt32,
    (length_take_stamped hlen).trans hlen32.symm⟩
  have hwrite := @wp_writeContent sh ndebug True _ _ _ _ _ hview b
  -- `WriteContent` uses the first `len` bytes only
  have hsame := writeContent_take sh (stamped o data len) len.toUInt32
  rw [hlen32] at hsame
  rw [hsame] at hwrite
  refine wp_seq (wp_onSender_producer hwrite) ?_
  intro ok t _ hpost
  -- the free space seen before is still there, so `WriteContent` has succeeded
  have hpub : t.ring.published = P ++ (stamped o data len).take len.toNat := by
    cases ok with
    | true =>
      obtain ⟨_, _, hview⟩ := hpost
      exact hview.published
    | false =>
      have hlt : n.toNat < b.len.toNat := hpost.1
      have hb : b.len.toNat = len.toNat := hlen32
      omega
  exact wp_seq (wp_runTryWrite hpub) fun _ u _ h v hv _ => hv.published.trans h

/-- The stamped buffer of a message is its frame. -/
theorem Message.take_stamped (m : Message) :
    (stamped o m.bytes m.len).take m.len.toNat = m.frame o :=
  List.take_of_length_le (by rw [m.len_toNat]; exact (m.length_frame (o := o)).le)

/-- `SendData` publishes a framed message and returns true, or publishes nothing and returns
    false. -/
theorem wp_sendData (m : Message) (hs : WriterView sh P w arr free s.ring) :
    wp (producerDisc sh ndebug (P ++ m.frame o)) (sendData sh.toShape o m.bytes m.len)
      (fun ok t => t.ring.published = if ok then P ++ m.frame o else P) s := by
  rw [← m.take_stamped]
  exact wp_sendData_stamped m.len_toNat.symm hs

end Producer

end ReechatBase.TcpSocket
