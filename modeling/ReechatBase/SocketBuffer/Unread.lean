import ReechatBase.SocketBuffer.Calls

/-!
# UnreadBytes after a read

`Next` and `ReadByte` only move the reading index; the typed reads go through `Skip`, which starts
the buffer afresh when it takes the last byte. `UnreadBytes` moves the reading index back and asks
that it stays above zero. This file asks when the three fit together.

- `unreadBytes_advanced`: after a mere advance, unreading restores the buffer itself, if the
  reading index was not zero;
- `unreadBytes_reset`: after the buffer has started afresh, unreading exposes the cells in front of
  the reserved index, whatever they hold;
- `undone_iff`: the exact condition for every read.
-/

namespace ReechatBase.SocketBuffer

open Lib Lib.Cyclic
open TcpSocket (ByteOrder)

variable {b : SocketBuffer} {o : ByteOrder}

/-! ## Reads -/

/-- The read operations. -/
inductive ReadOp where
  | readByte
  | readInt (t : IntType)
  | readUInt16
  | next (n : UInt64)
  | skip (n : UInt64)

namespace ReadOp

/-- The number of bytes read. -/
def size : ReadOp → UInt64
  | readByte => 1
  | readInt t => t.size
  | readUInt16 => 2
  | next n => n
  | skip n => n

/-- The read consumes its bytes with `Skip`. -/
def viaSkip : ReadOp → Bool
  | readByte => false
  | next _ => false
  | _ => true

/-- The buffer after the read. -/
def run (o : ByteOrder) (b : SocketBuffer) : ReadOp → Option SocketBuffer
  | .readByte => b.readByte.map Prod.snd
  | .readInt t => (Value.read o b t).map Prod.snd
  | .readUInt16 => (b.readUInt16 o).map Prod.snd
  | .next n => some (b.next n)
  | .skip n => some (b.skip n)

end ReadOp

/-- The read returns, `UnreadBytes` of as many bytes does so too, and what was unread before is
    unread again. -/
def Undone (o : ByteOrder) (b : SocketBuffer) (r : ReadOp) : Prop :=
  ∃ b₁ b₂, r.run o b = some b₁ ∧ b₁.unreadBytes r.size = some b₂ ∧ b₂.unread = b.unread

/-- The reading index is above zero. Where the read goes through `Skip` and takes everything, the
    reserved room is larger than what is read, and a copy of it stands at its end. -/
def Undoable (b : SocketBuffer) (r : ReadOp) : Prop :=
  if r.viaSkip = true ∧ r.size = b.length then
    r.size < b.reservedPrependSize ∧
      span b.buffer (b.reservedPrependSize.toNat - r.size.toNat) r.size.toNat = b.unread
  else 0 < b.readIndex

/-- A read of unread bytes is a `Skip` or a mere advance. -/
theorem run_readOp (h : Valid b) {r : ReadOp} (hr : r.size.toNat ≤ b.unread.length) :
    r.run o b = some (if r.viaSkip = true then b.skip r.size else b.advanced r.size) := by
  cases r with
  | readByte =>
    rw [length_unread] at hr
    obtain ⟨hpos, hread⟩ : b.length ≥ 1 ∧ ¬ b.length = 0 := by
      refine ⟨UInt64.le_iff_toNat_le.mpr hr, fun hzero => ?_⟩
      rw [hzero] at hr
      exact absurd hr (by decide)
    rw [ReadOp.run, readByte, assertion_bind hpos, if_neg hread]
    rfl
  | readInt t =>
    rw [ReadOp.run, read_spec h hr]
    rfl
  | readUInt16 =>
    have hpeek := peekObject_spec (o := o) h hr
    rw [ReadOp.size] at hpeek
    rw [ReadOp.run, readUInt16, peekInt16, hpeek]
    rfl
  | next n =>
    rw [length_unread] at hr
    exact congrArg some (if_pos (UInt64.le_iff_toNat_le.mpr hr))
  | skip n => rfl

/-! ## Unreading -/

/-- After a mere advance. -/
theorem unreadBytes_advanced (h : Valid b) {n : UInt64} (hn : n.toNat ≤ b.unread.length) :
    (∃ b', (b.advanced n).unreadBytes n = some b' ∧ b'.unread = b.unread) ↔ 0 < b.readIndex := by
  have hread := h.read_le
  have hwrite := h.write_le
  have hlen := h.length_toNat
  have hcap := b.capacity.toNat_lt
  rw [length_unread] at hn
  have hsum : (b.readIndex + n).toNat = b.readIndex.toNat + n.toNat := toNat_add (by omega)
  have hassert : n < b.readIndex + n ↔ 0 < b.readIndex := by
    rw [UInt64.lt_iff_toNat_lt, UInt64.lt_iff_toNat_lt, hsum]
    simp
  constructor
  · rintro ⟨b', hb', -⟩
    exact hassert.mp (of_assertion_bind hb').1
  · intro hpos
    refine ⟨b, ?_, rfl⟩
    refine (assertion_bind (hassert.mpr hpos) _).trans ?_
    -- the index is back where it was
    show some { b with readIndex := b.readIndex + n - n } = some b
    rw [UInt64.add_sub_cancel]

/-- After the buffer has started afresh. -/
theorem unreadBytes_reset {n : UInt64} {xs : List UInt8} :
    (∃ b', b.reset.unreadBytes n = some b' ∧ b'.unread = xs) ↔
      n < b.reservedPrependSize ∧
        span b.buffer (b.reservedPrependSize.toNat - n.toNat) n.toNat = xs := by
  have hunread : n < b.reservedPrependSize →
      ({ b.reset with readIndex := b.reservedPrependSize - n } : SocketBuffer).unread =
        span b.buffer (b.reservedPrependSize.toNat - n.toNat) n.toNat := by
    intro hlt
    have hsub : (b.reservedPrependSize - n).toNat = b.reservedPrependSize.toNat - n.toNat :=
      UInt64.toNat_sub_of_le _ _ (UInt64.le_of_lt hlt)
    have hlength : b.reservedPrependSize - (b.reservedPrependSize - n) = n := by
      rw [UInt64.sub_eq_iff_eq_add, UInt64.add_comm, UInt64.sub_add_cancel]
    show span b.buffer (b.reservedPrependSize - n).toNat
      (b.reservedPrependSize - (b.reservedPrependSize - n)).toNat = _
    rw [hlength, hsub]
  constructor
  · rintro ⟨b', hb', rfl⟩
    obtain ⟨hlt, hb'⟩ := of_assertion_bind hb'
    cases hb'
    exact ⟨hlt, (hunread hlt).symm⟩
  · rintro ⟨hlt, rfl⟩
    exact ⟨_, assertion_bind hlt _, hunread hlt⟩

/-- **Unreading.** In every buffer that the public calls can reach without a `Truncate` that wraps,
    after every read of `n` unread bytes, `UnreadBytes(n)` restores what was unread, provided that
    the reading index was not zero; but where a typed read or `Skip` has taken everything there
    was, it restores only what stands in front of the reserved index by accident. -/
theorem undone_iff (o : ByteOrder) (maxAlloc : ℕ) {b : SocketBuffer}
    (hb : (calls o maxAlloc).ReachableBy NoWrap b) {r : ReadOp} (hr : r.size ≤ b.length) :
    Undone o b r ↔ Undoable b r := by
  have h := (valid_of_reachable hb).1
  have hle : r.size.toNat ≤ b.unread.length := by
    rw [length_unread]
    exact UInt64.le_iff_toNat_le.mp hr
  have hrun : Undone o b r ↔ ∃ b', (if r.viaSkip = true then b.skip r.size
      else b.advanced r.size).unreadBytes r.size = some b' ∧ b'.unread = b.unread := by
    constructor
    · rintro ⟨b₁, b₂, hb₁, hb₂⟩
      rw [run_readOp h hle] at hb₁
      cases hb₁
      exact ⟨b₂, hb₂⟩
    · rintro ⟨b₂, hb₂⟩
      exact ⟨_, b₂, run_readOp h hle, hb₂⟩
  rw [hrun, Undoable]
  by_cases hskip : r.viaSkip = true
  · by_cases hall : r.size = b.length
    · -- `Skip` takes everything and starts the buffer afresh
      have hreset : b.skip r.size = b.reset := if_neg (by rw [hall]; exact UInt64.lt_irrefl _)
      rw [if_pos hskip, if_pos ⟨hskip, hall⟩, hreset]
      exact unreadBytes_reset
    · have hadvance : b.skip r.size = b.advanced r.size :=
        if_pos (UInt64.lt_of_le_of_ne hr hall)
      rw [if_pos hskip, if_neg (fun h => hall h.2), hadvance]
      exact unreadBytes_advanced h hle
  · rw [if_neg hskip, if_neg (fun h => hskip h.1)]
    exact unreadBytes_advanced h hle

theorem undone_iff_next : Undone .little threeBytes (.next 3) := by
  have h := undone_iff .little (2 ^ 40) (threeBytes_reachable .little) (r := .next 3) (by decide)
  rw [h, Undoable, if_neg (by decide)]
  decide

/-- The default buffer after `AppendInt64(7)` on a little-endian host. -/
def oneInt64 : SocketBuffer := { defaultBuffer with
  buffer := storeAt (fun _ => 0) 8 [0, 0, 0, 0, 0, 0, 0, 7], writeIndex := 16 }

/-- **A read that empties the buffer cannot be undone.** `ReadInt64` takes the only value in a
    default buffer; `UnreadBytes(8)` then fails its assertion. -/
theorem unread_fails_after_draining :
    (calls .little (2 ^ 40)).Reachable oneInt64 ∧
    ∃ b, oneInt64.readInt64 .little = some (7, b) ∧ b.unreadBytes 8 = none ∧
      ¬ Undone .little oneInt64 (.readInt .int64) := by
  have hreach : (calls .little (2 ^ 40)).ReachableBy NoWrap oneInt64 :=
    .step (l := (fun _ => 0, .appendInt (.int64 7))) (defaultBuffer_reachable .little) nofun
      ⟨nofun, rfl, by decide⟩
  refine ⟨hreach.reachable, _, rfl, rfl, fun h => ?_⟩
  obtain ⟨b₁, b₂, hb₁, hb₂, -⟩ := h
  cases hb₁
  cases hb₂

end ReechatBase.SocketBuffer
