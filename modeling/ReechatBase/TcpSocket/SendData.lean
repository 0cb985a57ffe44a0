import ReechatBase.TcpSocket.Sender
import ReechatBase.RingBuffer.Fifo

/-!
# What SendData accepts

`SendData` and `TryProcessBufferedDataInWorkLoop` are two descriptions of one frame format, written
apart. This file runs `SendData` for every value of `len` on every sender ring and compares what it
appends with what the decoder takes for a frame.

Main results:

- `run_sendData`: `SendData` refuses and changes nothing, or appends the first `len` bytes of the
  buffer with the header written over its start;
- `sendData_frames_iff`: what it appends is one frame announcing `len - 2` bytes, exactly when
  `len` is at least three or the call is refused.
-/

namespace ReechatBase.TcpSocket

open Lib Lib.Prog RingBuffer

variable {sh : PowShape} {o : ByteOrder} {ndebug : Bool}

/-! ## Running SendData alone -/

/-- A program on the sender ring whose effect on the memory is known. -/
theorem run_onSender_of_mem {α : Type} {chunk : ℕ} {p : Prog RingBuffer.sig α} {s : Sender} {v : α}
    {m : Mem} (h : p.run (RingBuffer.exec ndebug) s.ring.mem = some (v, m)) :
    ∃ x : Shared, x.mem = m ∧
      (onSender p).run (Sender.exec sh ndebug chunk) s = some (v, { s with ring := x }) :=
  run_lift_of_mem (L := ringOfSender) (fun _ _ => Option.map_map _ _ _) h

/-- The call is refused: `len` is above the limit, or the ring has no room for `len + 2` bytes. -/
def Refused (sh : PowShape) (len : UInt64) (m : Mem) : Prop :=
  65537 < len.toNat ∨ sh.cap - m.size < len.toNat + 2

/-- **`SendData`**, run alone on any sender ring: it refuses and leaves the content alone, or
    appends the first `len` bytes of the stamped buffer. -/
theorem run_sendData {chunk : ℕ} {s : Sender} (hs : s.ring.mem.size ≤ sh.cap) {data : List UInt8}
    {len : UInt64} (hlen : data.length = len.toNat) :
    ∃ ok t, (sendData sh.toShape o data len).run (Sender.exec sh ndebug chunk) s = some (ok, t) ∧
      (Refused sh len s.ring.mem ∧ ok = false ∧ t.ring.mem = s.ring.mem ∨
        ¬ Refused sh len s.ring.mem ∧ ok = true ∧
        t.ring.mem.content sh =
          s.ring.mem.content sh ++ (stamped o data len).take len.toNat) := by
  rw [sendData]
  split
  · next hlong => exact ⟨false, s, rfl, .inl ⟨.inl (UInt64.lt_iff_toNat_lt.mp hlong), rfl, rfl⟩⟩
  next hshort =>
  have hshort : ¬ 65537 < len.toNat := fun h => hshort (UInt64.lt_iff_toNat_lt.mpr h)
  obtain ⟨n, hrun, hn⟩ := @run_availableWrite sh ndebug s.ring.mem hs
  obtain ⟨x, hx, hrun⟩ := @run_onSender_of_mem sh ndebug _ chunk _ s _ _ hrun
  -- `len` is at most 65537 here, so that `len + 2` does not wrap
  have hsum : (len + 2).toNat = len.toNat + 2 := by
    have hadd : (len + 2).toNat = (len.toNat + 2) % 2 ^ 64 := UInt64.toNat_add _ _
    rw [hadd, Nat.mod_eq_of_lt (by omega)]
  have hroom_iff : n.toUInt64 < len + 2 ↔ sh.cap - s.ring.mem.size < len.toNat + 2 := by
    rw [UInt64.lt_iff_toNat_lt, UInt32.toNat_toUInt64, hsum, hn]
  rw [run_bind_of_eq hrun]
  split
  · next hfull => exact ⟨false, _, rfl, .inl ⟨.inr (hroom_iff.mp hfull), rfl, hx⟩⟩
  next hroom =>
  have hroom : ¬ sh.cap - s.ring.mem.size < len.toNat + 2 := fun h => hroom (hroom_iff.mpr h)
  have hlen32 : len.toUInt32.toNat = len.toNat := by
    rw [UInt64.toNat_toUInt32, Nat.mod_eq_of_lt (by omega)]
  -- `WriteContent` receives at least `len` bytes and uses the first `len`
  have htake : ((stamped o data len).take len.toNat).length = len.toUInt32.toNat :=
    (length_take_stamped hlen).trans hlen32.symm
  let b : Block := ⟨(stamped o data len).take len.toNat, len.toUInt32, htake⟩
  have hfit : x.mem.size + b.len.toNat ≤ sh.cap := by
    show x.mem.size + len.toUInt32.toNat ≤ sh.cap
    rw [hlen32, hx]
    omega
  have hwrite := @run_writeContent_copy sh ndebug x.mem (hx ▸ hs) b hfit
  have hsame := writeContent_take sh (stamped o data len) len.toUInt32
  rw [show len.toUInt32.toNat = len.toNat from hlen32] at hsame
  rw [hsame] at hwrite
  obtain ⟨y, hy, hwrite⟩ :=
    @run_onSender_of_mem sh ndebug _ chunk _ { s with ring := x } _ _ hwrite
  refine ⟨true, { s with ring := y, ctrl := (Ctrl.exec (.effect .runTryWrite) s.ctrl).2 }, ?_,
    .inr ⟨?_, rfl, ?_⟩⟩
  · exact run_bind_of_eq hwrite
  · rintro (hlong | hfull)
    · exact hshort hlong
    · exact hroom hfull
  · show y.mem.content sh = _
    rw [hy, x.mem.content_publish sh b.length_eq hfit, hx]

/-! ## Frames -/

/-- The appended bytes are one frame of the connection, and its header announces the `len - 2`
    bytes that follow it, between 1 and 65535. -/
structure FrameOf (o : ByteOrder) (len : UInt64) (appended : List UInt8) : Prop where
  isFrame : (framing o).IsFrame appended
  header : ∃ b₀ b₁ payload, appended = b₀ :: b₁ :: payload ∧
    (o.value b₀ b₁).toNat + 2 = len.toNat ∧ 1 ≤ (o.value b₀ b₁).toNat ∧
    (o.value b₀ b₁).toNat ≤ 65535 ∧ payload.length = (o.value b₀ b₁).toNat

/-- A buffer of legal length is appended as one frame. -/
theorem frameOf_stamped {data : List UInt8} {len : UInt64} (hlen : data.length = len.toNat)
    (hmin : 3 ≤ len.toNat) (hmax : len.toNat ≤ 65537) :
    FrameOf o len ((stamped o data len).take len.toNat) := by
  let m : Message := ⟨data, by omega, by omega⟩
  have hm : m.len = len := by
    apply UInt64.toNat_inj.mp
    rw [m.len_toNat]
    exact hlen
  have hall : (stamped o data len).take len.toNat = m.frame o := by
    rw [← hm]
    exact m.take_stamped
  obtain ⟨b₀, b₁, hheader, hvalue⟩ := value_header o (m.len - 2).toUInt16
  have hsize : (o.value b₀ b₁).toNat = data.length - 2 := by
    rw [hvalue, m.header_toNat]
  rw [hall]
  refine ⟨m.isFrame o, b₀, b₁, data.drop 2, ?_, by omega, by omega, by omega, ?_⟩
  · rw [Message.frame, hheader]
    rfl
  · rw [List.length_drop, hsize]

/-- A frame takes at least three bytes. -/
theorem FrameOf.three_le {len : UInt64} {appended : List UInt8} (h : FrameOf o len appended) :
    3 ≤ len.toNat := by
  obtain ⟨b₀, b₁, _, -, hlen, hpos, -, -⟩ := h.header
  omega

/-- **What SendData accepts.** On every sender ring and for every `len`, the call returns; if it
    returns true, the bytes it has appended are one frame announcing `len - 2` bytes, provided
    that `len` is at least three. A shorter buffer is accepted all the same whenever the ring has
    room for it, and then they are not. -/
theorem sendData_frames_iff (sh : PowShape) (o : ByteOrder) (ndebug : Bool) (chunk : ℕ) {s : Sender}
    (hs : s.ring.mem.size ≤ sh.cap) {data : List UInt8} {len : UInt64}
    (hlen : data.length = len.toNat) :
    ∃ ok t appended,
      (sendData sh.toShape o data len).run (Sender.exec sh ndebug chunk) s = some (ok, t) ∧
      t.ring.mem.content sh = s.ring.mem.content sh ++ appended ∧
      ((ok = true → FrameOf o len appended) ↔
        3 ≤ len.toNat ∨ sh.cap - s.ring.mem.size < len.toNat + 2) := by
  obtain ⟨ok, t, hrun, ⟨hrefused, rfl, ht⟩ | ⟨haccepted, rfl, ht⟩⟩ :=
    @run_sendData sh o ndebug chunk s hs data len hlen
  · -- a refused call appends nothing, whatever the length
    refine ⟨false, t, [], hrun, by rw [ht, List.append_nil], iff_of_true nofun ?_⟩
    rcases hrefused with hlong | hfull
    · exact .inl (by omega)
    · exact .inr hfull
  · -- an accepted one has stamped a header, which is right from three bytes on
    obtain ⟨hshort, hroom⟩ := not_or.mp haccepted
    refine ⟨true, t, _, hrun, ht, ?_, ?_⟩
    · exact fun h => .inl (h rfl).three_le
    · rintro (hmin | hfull) -
      · exact frameOf_stamped hlen hmin (by omega)
      · exact absurd hfull hroom

/-- A connected sender with an empty ring of the code's size. -/
def freshSender : Sender :=
  ⟨⟨⟨fun _ => 0, 0, 0⟩, [], 0⟩, ⟨.connected, true, true, []⟩, []⟩

theorem sendData_frames_iff_three : ∃ ok t appended,
    (sendData (PowShape.ofLog 24 (by decide)).toShape .little [0, 0, 65] 3).run
      (Sender.exec (.ofLog 24 (by decide)) false 0) freshSender = some (ok, t) ∧
    (ok = true → FrameOf .little 3 appended) := by
  obtain ⟨ok, t, appended, hrun, -, hframe⟩ := @sendData_frames_iff (.ofLog 24 (by decide)) .little
    false 0 freshSender (Nat.zero_le _) [0, 0, 65] 3 rfl
  exact ⟨ok, t, appended, hrun, hframe.mpr (.inl (by decide))⟩

/-- **A send of two bytes is accepted.** `SendData` returns true for a buffer of two bytes and
    appends a header that announces no payload; whatever follows it, the decoder finds no frame
    from there on. -/
theorem sendData_accepts_two : ∃ t,
    (sendData (PowShape.ofLog 24 (by decide)).toShape .little [1, 2] 2).run
      (Sender.exec (.ofLog 24 (by decide)) false 0) freshSender = some (true, t) ∧
    t.ring.mem.content (.ofLog 24 (by decide)) = [0, 0] ∧ ¬ FrameOf .little 2 [0, 0] ∧
    ∀ rest, (framing .little).parse ([0, 0] ++ rest) = [] := by
  refine ⟨_, rfl, by decide, fun h => absurd h.three_le (by decide), fun rest => ?_⟩
  exact Framing.Format.parse_of_next_none rfl

end ReechatBase.TcpSocket
