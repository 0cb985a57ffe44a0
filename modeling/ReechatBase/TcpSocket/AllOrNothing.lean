import ReechatBase.TcpSocket.SendData
import ReechatBase.TcpSocket.Wrapper

/-!
# Sending all of a message or nothing

`SendData` asks for the room first and then writes; `SendDataWithHead` writes without asking and
does not look at what `WriteContent` answers. This file compares the result of either call with
what it has appended to the sender ring, while the network thread frees space at any moment.

- `allOrNothing_sendData`: the result of `SendData` is always right;
- `allOrNothing_sendDataWithHead`: that of `SendDataWithHead` is right if the message fits into the
  free space at the call;
- `run_sendDataWithHead`: what it does otherwise;
- `all_or_nothing_iff`: together, the exact condition for either call.
-/

namespace ReechatBase.TcpSocket

open Lib Lib.Prog RingBuffer

variable {sh : PowShape} {o : ByteOrder} {ndebug : Bool}

/-! ## The two calls -/

/-- A call by which the user sends a message. -/
inductive Call where
  /-- `SendData(data, len)` with a buffer of `len` bytes -/
  | sendData (data : List UInt8) (len : UInt64) (hlen : data.length = len.toNat)
  /-- `SendDataWithHead(buff)` -/
  | sendDataWithHead (buff : List UInt8)

namespace Call

/-- The member function called. -/
def prog (sh : Shape) (o : ByteOrder) : Call → Prog sendSig Bool
  | sendData data len _ => TcpSocket.sendData sh o data len
  | sendDataWithHead buff => TcpSocket.sendDataWithHead sh buff

/-- The bytes that the call is to append: `SendData` replaces the first two by the header. -/
def message (o : ByteOrder) : Call → List UInt8
  | sendData data len _ => (stamped o data len).take len.toNat
  | sendDataWithHead buff => buff

/-- `SendDataWithHead` is called with room for the message. -/
def Fits (sh : PowShape) (s : Sender) : Call → Prop
  | sendData _ _ _ => True
  | sendDataWithHead buff => buff.length ≤ sh.cap - s.ring.mem.size

end Call

/-- Started in `s`, the program appends the whole message at once and returns true, or appends
    nothing and returns false, however `TryWriteBufferToSocket` moves meanwhile. -/
def AllOrNothing (sh : PowShape) (ndebug : Bool) (p : Prog sendSig Bool) (message : List UInt8)
    (s : Sender) : Prop :=
  wp (producerDisc sh ndebug (s.ring.published ++ message)) p (fun ok t =>
    t.ring.published = if ok then s.ring.published ++ message else s.ring.published) s

/-! ## SendData -/

theorem allOrNothing_sendData {s : Sender} (hs : s.Inv sh) {data : List UInt8} {len : UInt64}
    (hlen : data.length = len.toNat) :
    AllOrNothing sh ndebug (sendData sh.toShape o data len)
      ((stamped o data len).take len.toNat) s :=
  wp_sendData_stamped hlen (.of_coherent hs.coherent)

/-! ## SendDataWithHead -/

/-- With room for the message at the call there is room when it is written. -/
theorem allOrNothing_sendDataWithHead {s : Sender} (hs : s.Inv sh) {buff : List UInt8}
    (hfit : buff.length ≤ sh.cap - s.ring.mem.size) :
    AllOrNothing sh ndebug (sendDataWithHead sh.toShape buff) buff s := by
  have hsize := hs.coherent.size_le
  have hcap := sh.cap_le
  -- the cast of the size to `uint32_t` loses nothing
  have hlen : buff.length = (UInt32.ofNat buff.length).toNat :=
    (UInt32.toNat_ofNat_of_lt' (show buff.length < 2 ^ 32 by omega)).symm
  have hview : WriterView sh s.ring.published s.ring.mem.writeCount s.ring.mem.dataArr buff.length
      s.ring := .of_room hs.coherent (by omega)
  apply wp_seq (wp_onSender_producer (wp_writeContent hview ⟨buff, _, hlen⟩))
  intro ok t _ hpost
  have hpub : t.ring.published = s.ring.published ++ buff := by
    cases ok with
    | true =>
      obtain ⟨_, _, hview⟩ := hpost
      exact hview.published
    | false => exact absurd hlen hpost.1.ne
  exact wp_seq (wp_runTryWrite hpub) fun _ u _ h v hv _ => hv.published.trans h

/-- Alone, `SendDataWithHead` returns true in every case; it has appended the first
    `size() mod 2 ^ 32` bytes if these fit, and nothing otherwise. -/
theorem run_sendDataWithHead {chunk : ℕ} {s : Sender} (hs : s.Inv sh) (buff : List UInt8) :
    ∃ t, (sendDataWithHead sh.toShape buff).run (Sender.exec sh ndebug chunk) s = some (true, t) ∧
      t.ring.mem.content sh = s.ring.mem.content sh ++
        if buff.length % 2 ^ 32 ≤ sh.cap - s.ring.mem.size then buff.take (buff.length % 2 ^ 32)
        else [] := by
  have hsize := hs.coherent.size_le
  have hlen : (UInt32.ofNat buff.length).toNat = buff.length % 2 ^ 32 := UInt32.toNat_ofNat'
  have htake : (buff.take (buff.length % 2 ^ 32)).length = (UInt32.ofNat buff.length).toNat := by
    rw [hlen, List.length_take_of_le (Nat.mod_le _ _)]
  let b : Block := ⟨buff.take (buff.length % 2 ^ 32), UInt32.ofNat buff.length, htake⟩
  have hsame : writeContent sh.toShape b.bytes b.len =
      writeContent sh.toShape buff (UInt32.ofNat buff.length) := by
    rw [← writeContent_take sh buff, hlen]
  have hb : b.len.toNat = buff.length % 2 ^ 32 := hlen
  split
  · next hfit =>
    have hfit : s.ring.mem.size + b.len.toNat ≤ sh.cap := by omega
    have hwrite := @run_writeContent_copy sh ndebug s.ring.mem hsize b hfit
    rw [hsame] at hwrite
    obtain ⟨x, hx, hwrite⟩ := @run_onSender_of_mem sh ndebug _ chunk _ s _ _ hwrite
    refine ⟨_, run_bind_of_eq hwrite, ?_⟩
    show x.mem.content sh = _
    rw [hx, s.ring.mem.content_publish sh b.length_eq hfit]
  · next hfull =>
    have hwrite := @run_writeContent_full sh ndebug s.ring.mem hsize b (by omega)
    rw [hsame] at hwrite
    obtain ⟨x, hx, hwrite⟩ := @run_onSender_of_mem sh ndebug _ chunk _ s _ _ hwrite
    refine ⟨_, run_bind_of_eq hwrite, ?_⟩
    show x.mem.content sh = _
    rw [hx, List.append_nil]

/-- Without room for the message at the call, the network thread may stand still, and then
    `SendDataWithHead` loses all of the message or a part of it. -/
theorem not_allOrNothing_sendDataWithHead {s : Sender} (hs : s.Inv sh) {buff : List UInt8}
    (hfull : ¬ buff.length ≤ sh.cap - s.ring.mem.size) :
    ¬ AllOrNothing sh ndebug (sendDataWithHead sh.toShape buff) buff s := by
  intro h
  obtain ⟨t, hrun, hcontent⟩ := @run_sendDataWithHead sh ndebug 0 s hs buff
  -- alone, the producer consumes nothing
  have hframe : ∀ {x y z : Sender}, (producerDisc sh ndebug (s.ring.published ++ buff)).guar x y →
      z.ring.consumed = y.ring.consumed → z.ring.consumed = x.ring.consumed :=
    fun hg hG => hG.trans hg.1.consumed
  obtain ⟨ht, hconsumed, hpub⟩ := post_of_run
    (G := fun s t => t.ring.consumed = s.ring.consumed) Sender.sem_of_exec (fun _ => rfl) hframe
    h hs hrun
  -- the result says that the ring has grown by the whole message
  have hgrown : t.ring.mem.size = s.ring.mem.size + buff.length := by
    have hlen := congrArg List.length hpub
    rw [if_pos rfl, List.length_append] at hlen
    have hle := hs.coherent.consumed_le
    rw [ht.coherent.size_eq, hs.coherent.size_eq, hlen, hconsumed, Nat.sub_add_comm hle]
  have hlen := congrArg List.length hcontent
  rw [List.length_append, Mem.length_content, Mem.length_content, hgrown] at hlen
  split at hlen
  · next hfit =>
    rw [List.length_take_of_le (Nat.mod_le _ _)] at hlen
    omega
  · rw [List.length_nil] at hlen
    omega

/-! ## Through a task -/

open Wrapper in
/-- `TcpClientTask` and `TcpServerTask` send over a connected socket only, and return false
    otherwise. What holds of the call itself holds of the call through a task. -/
theorem allOrNothing_ifConnected {p : Prog sendSig Bool} {message : List UInt8} {s : Sender}
    (hs : s.Inv sh) :
    AllOrNothing sh ndebug (ifConnected p) message s ↔ AllOrNothing sh ndebug p message s := by
  constructor
  · intro h
    -- the socket may be connected when the task asks
    let t : Sender := { s with ctrl := { s.ctrl with state := .connected } }
    have ht : t.Inv sh := ⟨hs.coherent, hs.sent⟩
    have hst : (producerDisc sh ndebug (s.ring.published ++ message)).rely s t := .refl s.ring
    obtain ⟨-, -, hp⟩ := (h t hst ht).2 _ _ (SendSem.ctrl (a := .loadState))
    exact wp_of_rely hp (WriterRely.refl s.ring)
  · intro h t hst ht
    refine ⟨trivial, ?_⟩
    rintro r u ⟨⟩
    refine ⟨ht, ⟨.refl _, rfl, .inl rfl⟩, ?_⟩
    show wp _ (if t.ctrl.state = .connected then p else ret false) _ t
    split
    · exact wp_of_rely h hst
    · -- without a connection nothing is appended
      exact fun v hv _ => hv.published.trans hst.published

/-! ## Either call -/

/-- **Sending is all or nothing.** Whatever the sender ring holds and however the network thread
    moves during the call: `SendData` returns true exactly if it has appended the whole message,
    and has appended nothing otherwise. `SendDataWithHead` does so exactly when the message fits
    into the free space at the call; without that it can return true for a message that it has
    dropped. A task that forwards the call adds nothing to this. -/
theorem all_or_nothing_iff (sh : PowShape) (o : ByteOrder) (ndebug : Bool) {s : Sender}
    (hs : s.Inv sh) (c : Call) :
    (AllOrNothing sh ndebug (c.prog sh.toShape o) (c.message o) s ↔ c.Fits sh s) ∧
      (AllOrNothing sh ndebug (Wrapper.ifConnected (c.prog sh.toShape o)) (c.message o) s ↔
        c.Fits sh s) := by
  rw [allOrNothing_ifConnected hs, and_self]
  cases c with
  | sendData data len hlen => exact iff_of_true (allOrNothing_sendData hs hlen) trivial
  | sendDataWithHead buff =>
    constructor
    · intro h
      by_contra hfull
      exact not_allOrNothing_sendDataWithHead hs hfull h
    · exact allOrNothing_sendDataWithHead hs

/-- The invariant holds of a fresh sender. -/
theorem freshSender_inv (log : ℕ) (hlog : log ≤ 31) : freshSender.Inv (.ofLog log hlog) where
  coherent := ⟨le_rfl, rfl, Nat.zero_le _, rfl⟩
  sent := List.prefix_rfl

theorem all_or_nothing_iff_fresh : AllOrNothing (.ofLog 24 (by decide)) false
    (sendDataWithHead (PowShape.ofLog 24 (by decide)).toShape [1, 0, 65]) [1, 0, 65]
    freshSender :=
  (all_or_nothing_iff (.ofLog 24 (by decide)) .little false (freshSender_inv 24 (by decide))
    (.sendDataWithHead [1, 0, 65])).1.mpr (Nat.le_of_ble_eq_true rfl)

/-- **A dropped message is reported as sent.** A message one byte longer than the ring of the code:
    `SendDataWithHead` returns true and the ring stays empty. -/
theorem sendDataWithHead_drops : ∃ t,
    (sendDataWithHead (PowShape.ofLog 24 (by decide)).toShape
      (List.replicate (2 ^ 24 + 1) 7)).run (Sender.exec (.ofLog 24 (by decide)) false 0)
      freshSender = some (true, t) ∧
    t.ring.mem.content (.ofLog 24 (by decide)) = [] ∧
    ¬ AllOrNothing (.ofLog 24 (by decide)) false
      (sendDataWithHead (PowShape.ofLog 24 (by decide)).toShape (List.replicate (2 ^ 24 + 1) 7))
      (List.replicate (2 ^ 24 + 1) 7) freshSender := by
  have hinv := freshSender_inv 24 (by decide)
  have hcap : (PowShape.ofLog 24 (by decide)).cap = 2 ^ 24 := rfl
  have hsize : freshSender.ring.mem.size = 0 := rfl
  obtain ⟨t, hrun, hcontent⟩ := @run_sendDataWithHead (.ofLog 24 (by decide)) false 0 freshSender
    hinv (List.replicate (2 ^ 24 + 1) 7)
  refine ⟨t, hrun, ?_, not_allOrNothing_sendDataWithHead hinv ?_⟩
  · rw [hcontent, List.length_replicate, hcap, hsize, if_neg (by decide), List.append_nil]
    rfl
  · rw [List.length_replicate, hcap, hsize]
    decide

end ReechatBase.TcpSocket
