import ReechatBase.SocketBuffer.Integers

/-!
# Any sequence of calls on a SocketBuffer

`Refinement` describes a client that respects the preconditions. Here the client makes any public
call with any arguments, and the run goes on as long as the calls return: a failed assertion ends
it, and so does `new char[n]` for more bytes than the host can provide.

- `Valid.of_call`: a call that returns keeps the indices in order, with one exception:
  `Truncate(n)` where `read_index_ + n` wraps;
- `discards_iff`: `Skip`, `Next` and `Truncate` do what they should for every `size_t` argument,
  with the same exception.
-/

namespace ReechatBase.SocketBuffer

open Lib Lib.Cyclic
open TcpSocket (ByteOrder)

variable {b b' : SocketBuffer} {fresh : ℕ → UInt8} {o : ByteOrder}

/-! ## What a call that returns has done -/

/-- An assertion that has not failed. -/
theorem of_assertion_bind {α : Type} {p : Prop} [Decidable p] {f : Unit → Option α} {y : α}
    (h : (assertion p >>= f) = some y) : p ∧ f () = some y := by
  by_cases hp : p
  · rw [assertion_bind hp] at h
    exact ⟨hp, h⟩
  · simp [assertion, hp] at h

theorem moved_of_reallocate (h : Valid b) {len : UInt64}
    (hb' : b.reallocate fresh len = some b') : Moved b b' := by
  rw [reallocate, h.loadBytes] at hb'
  obtain ⟨hroom, hb'⟩ := of_assertion_bind hb'
  cases hb'
  obtain ⟨hvalid, hunread, -, -⟩ := valid_of_store fresh b.length_unread hroom rfl
  exact ⟨hvalid, hunread, rfl⟩

theorem moved_of_compact (h : Valid b) {len : UInt64} (hb' : b.compact len = some b') :
    Moved b b' := by
  have hread := h.read_le
  have hwrite := h.write_le
  have hlen := h.length_toNat
  obtain ⟨hlt, hb'⟩ := of_assertion_bind hb'
  rw [UInt64.lt_iff_toNat_lt] at hlt
  have hstore : b.reservedPrependSize.toNat + b.unread.length ≤ b.capacity.toNat := by
    rw [length_unread]
    omega
  simp only [h.loadBytes, Option.bind_eq_bind, Option.bind_some, storeBytes_eq hstore] at hb'
  rw [UInt64.add_comm b.reservedPrependSize] at hb'
  -- the two assertions at the end change nothing
  obtain ⟨-, hb'⟩ := of_assertion_bind hb'
  obtain ⟨n, -, hb'⟩ := Option.bind_eq_some_iff.mp hb'
  obtain ⟨-, hb'⟩ := of_assertion_bind hb'
  cases hb'
  obtain ⟨hvalid, hunread, -, -⟩ := valid_of_store b.buffer b.length_unread hstore rfl
  exact ⟨hvalid, hunread, rfl⟩

theorem moved_of_grow (h : Valid b) {len : UInt64} (hb' : b.grow fresh len = some b') :
    Moved b b' := by
  obtain ⟨n, -, hb'⟩ := Option.bind_eq_some_iff.mp hb'
  split at hb'
  · exact moved_of_reallocate h hb'
  · exact moved_of_compact h hb'

theorem moved_of_reserve (h : Valid b) {len : UInt64} (hb' : b.reserve fresh len = some b') :
    Moved b b' := by
  rw [reserve] at hb'
  split at hb'
  · cases hb'
    exact ⟨h, rfl, rfl⟩
  · exact moved_of_grow h hb'

/-- The last assertion of `EnsureWritableBytes`. -/
theorem room_of_assertion (h : Valid b) {len : UInt64}
    (hb' : (do
      let writable ← b.writableBytes
      assertion (writable ≥ len)
      return b) = some b') : b' = b ∧ len.toNat ≤ b.free := by
  obtain ⟨n, hn, hnfree⟩ := h.writableBytes
  simp only [hn, Option.bind_eq_bind, Option.bind_some] at hb'
  obtain ⟨hle, hb'⟩ := of_assertion_bind hb'
  cases hb'
  rw [ge_iff_le, UInt64.le_iff_toNat_le, hnfree] at hle
  exact ⟨rfl, hle⟩

/-- `EnsureWritableBytes` guarantees the room, whatever has overflowed. -/
theorem moved_of_ensureWritableBytes (h : Valid b) {len : UInt64}
    (hb' : b.ensureWritableBytes fresh len = some b') : Moved b b' ∧ len.toNat ≤ b'.free := by
  obtain ⟨n, -, hb'⟩ := Option.bind_eq_some_iff.mp hb'
  split at hb'
  · obtain ⟨c, hc, hb'⟩ := Option.bind_eq_some_iff.mp hb'
    have hmoved := moved_of_grow h hc
    obtain ⟨rfl, hfree⟩ := room_of_assertion hmoved.valid hb'
    exact ⟨hmoved, hfree⟩
  · obtain ⟨rfl, hfree⟩ := room_of_assertion h hb'
    exact ⟨⟨h, rfl, rfl⟩, hfree⟩

theorem valid_of_write (h : Valid b) {d : Chunk} (hb' : b.write fresh d = some b') :
    Valid b' ∧ b'.unread = b.unread ++ d.bytes := by
  obtain ⟨c, hc, -⟩ := Option.bind_eq_some_iff.mp hb'
  obtain ⟨hmoved, hfree⟩ := moved_of_ensureWritableBytes h hc
  rw [write_of_room fresh hmoved.valid hc hfree] at hb'
  cases hb'
  obtain ⟨hvalid, hunread⟩ := extended_spec hmoved.valid hfree
  exact ⟨hvalid, hmoved.unread ▸ hunread⟩

theorem valid_of_prepend (h : Valid b) {d : Chunk} (hb' : b.prepend d = some b') :
    Valid b' ∧ b'.unread = d.bytes ++ b.unread := by
  obtain ⟨hle, -⟩ := of_assertion_bind hb'
  obtain ⟨c, hc, hvalid, hunread⟩ := prepend_spec h (UInt64.le_iff_toNat_le.mp hle)
  obtain rfl : c = b' := Option.some.inj (hc.symm.trans hb')
  exact ⟨hvalid, hunread⟩

/-- `UnwriteBytes` asserts its precondition. -/
theorem valid_of_unwriteBytes (h : Valid b) {n : UInt64} (hb' : b.unwriteBytes n = some b') :
    Valid b' := by
  obtain ⟨hle, -⟩ := of_assertion_bind hb'
  obtain ⟨hc, hvalid, -⟩ := unwriteBytes_spec h (UInt64.le_iff_toNat_le.mp hle)
  obtain rfl : b.unwritten n = b' := Option.some.inj (hc.symm.trans hb')
  exact hvalid

/-- A call that returns, and returns nothing. -/
theorem of_map_mk {α β : Type} {x : Option β} {a a' : α} {y : β}
    (h : x.map (Prod.mk a) = some (a', y)) : x = some y := by
  obtain ⟨z, hz, heq⟩ := Option.map_eq_some_iff.mp h
  rw [hz, (Prod.mk.inj heq).2]

/-- A call of the client from `Refinement` that returns. -/
theorem Valid.of_op (h : Valid b) {op : Op} {out : List UInt8}
    (hok : ∀ n, op = .truncate n → b.readIndex.toNat + n.toNat < 2 ^ 64)
    (hrun : op.run fresh b = some (out, b')) : Valid b' := by
  cases op with
  | write d => exact (valid_of_write h (of_map_mk hrun)).1
  | append d => exact (valid_of_write h (of_map_mk hrun)).1
  | prepend d => exact (valid_of_prepend h (of_map_mk hrun)).1
  | skip len =>
    cases hrun
    exact (skip_spec h len).1
  | retrieve len =>
    cases hrun
    exact (skip_spec h len).1
  | next len =>
    cases hrun
    exact (next_spec h len).1
  | truncate n =>
    cases hrun
    exact (truncate_spec h (hok n rfl)).1
  | reset =>
    cases hrun
    exact (reset_spec h).1
  | readByte =>
    obtain ⟨c, hc, heq⟩ := Option.map_eq_some_iff.mp hrun
    cases heq
    obtain ⟨hlen, -⟩ := of_assertion_bind hc
    obtain ⟨x, d, hd, hvalid, -⟩ := readByte_spec h (UInt64.le_iff_toNat_le.mp hlen)
    cases hd.symm.trans hc
    exact hvalid
  | unwriteBytes n => exact valid_of_unwriteBytes h (of_map_mk hrun)
  | reserve len => exact (moved_of_reserve h (of_map_mk hrun)).valid
  | ensureWritableBytes len => exact (moved_of_ensureWritableBytes h (of_map_mk hrun)).1.valid
  | toText =>
    obtain ⟨c, hc, hd⟩ := Option.bind_eq_some_iff.mp (of_map_mk hrun)
    exact valid_of_unwriteBytes (valid_of_write h hc).1 hd

theorem valid_of_writeBytes (h : Valid b) {n : UInt64} (hb' : b.writeBytes n = some b') :
    Valid b' := by
  have hread := h.read_le
  have hwrite := h.write_le
  have hcap := b.capacity.toNat_lt
  obtain ⟨m, hm, hmfree⟩ := h.writableBytes
  simp only [writeBytes, hm, Option.bind_eq_bind, Option.bind_some] at hb'
  obtain ⟨hle, hb'⟩ := of_assertion_bind hb'
  cases hb'
  rw [UInt64.le_iff_toNat_le, hmfree, free] at hle
  have hsum : (b.writeIndex + n).toNat = b.writeIndex.toNat + n.toNat := toNat_add (by omega)
  refine ⟨h.reserved_le, ?_, ?_⟩
  · show b.readIndex.toNat ≤ (b.writeIndex + n).toNat
    omega
  · show (b.writeIndex + n).toNat ≤ b.capacity.toNat
    omega

theorem valid_of_unreadBytes (h : Valid b) {n : UInt64} (hb' : b.unreadBytes n = some b') :
    Valid b' := by
  have hread := h.read_le
  obtain ⟨hlt, hb'⟩ := of_assertion_bind hb'
  cases hb'
  have hsub : (b.readIndex - n).toNat = b.readIndex.toNat - n.toNat :=
    UInt64.toNat_sub_of_le _ _ (UInt64.le_of_lt hlt)
  refine ⟨h.reserved_le, ?_, h.write_le⟩
  show (b.readIndex - n).toNat ≤ b.writeIndex.toNat
  omega

/-! ### ReadFromFD -/

/-- The first `n` bytes of a chunk. -/
def Chunk.take (d : Chunk) (n : UInt64) (h : ¬ d.len ≤ n) : Chunk where
  bytes := d.bytes.take n.toNat
  len := n
  length_eq := by
    rw [UInt64.le_iff_toNat_le] at h
    rw [List.length_take, d.length_eq]
    omega

/-- What fits the free cells is written into them. -/
theorem readFromFD_of_le (h : Valid b) {d : Chunk} (hle : d.len.toNat ≤ b.free) :
    b.readFromFD fresh (.data d) = some (.ok d.len, b.extended d) := by
  have hwrite := h.write_le
  have hlength := d.length_eq
  obtain ⟨n, hn, hnfree⟩ := h.writableBytes
  have hall : d.bytes.take n.toNat = d.bytes := List.take_of_length_le (by omega)
  have hroom : b.writeIndex.toNat + d.bytes.length ≤ b.capacity.toNat := by
    rw [free] at hle
    omega
  have hfit : d.len ≤ n := UInt64.le_iff_toNat_le.mpr (by omega)
  simp only [readFromFD, hn, Option.bind_eq_bind, Option.bind_some, hall, storeBytes_eq hroom]
  rw [dif_pos hfit]
  rfl

/-- What does not fit is appended behind a completely full buffer. -/
theorem readFromFD_of_gt (h : Valid b) {d : Chunk} (hgt : b.free < d.len.toNat) :
    ∃ (n : UInt64) (hn : ¬ d.len ≤ n), n.toNat = b.free ∧
      b.readFromFD fresh (.data d) =
        ((b.extended (d.take n hn)).write fresh (d.drop n hn)).map (Prod.mk (.ok d.len)) := by
  have hwrite := h.write_le
  have hle : b.writeIndex ≤ b.capacity := UInt64.le_iff_toNat_le.mpr hwrite
  have hnfree : (b.capacity - b.writeIndex).toNat = b.free := UInt64.toNat_sub_of_le _ _ hle
  have hn : ¬ d.len ≤ b.capacity - b.writeIndex := by
    rw [UInt64.le_iff_toNat_le]
    omega
  have hroom : b.writeIndex.toNat + (d.bytes.take (b.capacity - b.writeIndex).toNat).length ≤
      b.capacity.toNat := by
    rw [List.length_take, hnfree, free]
    omega
  -- the free cells are filled to the last one
  have hfull : b.writeIndex + (b.capacity - b.writeIndex) = b.capacity := by
    rw [UInt64.add_comm, UInt64.sub_add_cancel]
  refine ⟨_, hn, hnfree, ?_⟩
  rw [readFromFD, writableBytes]
  simp only [assertion_bind (show b.capacity ≥ b.writeIndex from hle), Option.bind_eq_bind,
    Option.pure_def, Option.bind_some, storeBytes_eq hroom, dif_neg hn]
  rw [append, extended, Chunk.take, hfull, Option.map_eq_bind]
  rfl

/-- The free cells taken up, and the rest behind them. -/
theorem extended_take_spec (h : Valid b) {d : Chunk} {n : UInt64} (hn : ¬ d.len ≤ n)
    (hnfree : n.toNat = b.free) :
    Valid (b.extended (d.take n hn)) ∧
      (b.extended (d.take n hn)).unread ++ (d.drop n hn).bytes = b.unread ++ d.bytes := by
  obtain ⟨hvalid, hunread⟩ := extended_spec (d := d.take n hn) h hnfree.le
  refine ⟨hvalid, ?_⟩
  rw [hunread, List.append_assoc]
  exact congrArg _ (List.take_append_drop n.toNat d.bytes)

theorem valid_of_readFromFD (h : Valid b) {d : Chunk} {r : Except Int32 UInt64}
    (hb' : b.readFromFD fresh (.data d) = some (r, b')) :
    Valid b' ∧ b'.unread = b.unread ++ d.bytes := by
  rcases Nat.lt_or_ge b.free d.len.toNat with hgt | hle
  · obtain ⟨n, hn, hnfree, heq⟩ := @readFromFD_of_gt b fresh h d hgt
    obtain ⟨hvalid, hunread⟩ := extended_take_spec h hn hnfree
    rw [heq] at hb'
    obtain ⟨c, hc, hpair⟩ := Option.map_eq_some_iff.mp hb'
    cases hpair
    obtain ⟨hvalid', hunread'⟩ := valid_of_write hvalid hc
    exact ⟨hvalid', hunread'.trans hunread⟩
  · rw [readFromFD_of_le h hle] at hb'
    cases hb'
    exact extended_spec h hle

/-! ## The system -/

/-- The public calls, with the arguments and the outcomes of `::readv` that the client cannot
    foresee. -/
inductive Call where
  | op (c : Op)
  /-- The caller stores bytes through the pointer that `WriteBegin()` returns -/
  | writeBegin (bytes : List UInt8)
  | writeBytes (n : UInt64)
  | unreadBytes (n : UInt64)
  | appendInt (v : Value)
  | prependInt (v : Value)
  | readInt (t : IntType)
  | readUInt16
  | readFromFD (r : Readv)

/-- Run the call, and forget what it returns. -/
def Call.run (fresh : ℕ → UInt8) (o : ByteOrder) (b : SocketBuffer) : Call → Option SocketBuffer
  | .op c => (c.run fresh b).map Prod.snd
  | .writeBegin bytes => b.storeBytes b.writeIndex bytes
  | .writeBytes n => b.writeBytes n
  | .unreadBytes n => b.unreadBytes n
  | .appendInt v => v.append fresh o b
  | .prependInt v => v.prepend o b
  | .readInt t => (Value.read o b t).map Prod.snd
  | .readUInt16 => (b.readUInt16 o).map Prod.snd
  | .readFromFD r => (b.readFromFD fresh r).map Prod.snd

/-- `::readv` delivers at most as many bytes as the vectors that it is passed can take. -/
def Readv.Possible (b : SocketBuffer) : Readv → Prop
  | error _ => True
  | data d => ∃ writable, b.writableBytes = some writable ∧
      d.len.toNat ≤ ((iov writable).map UInt64.toNat).sum

/-- The calls of any client on any buffer, as long as they return. `maxAlloc` is the size of the
    largest array that `new char[n]` can provide; beyond it the call throws. -/
def calls (o : ByteOrder) (maxAlloc : ℕ) : Lts SocketBuffer ((ℕ → UInt8) × Call) where
  init b := (∃ fresh initialSize reservedPrependSize,
    construct fresh initialSize reservedPrependSize = some b) ∧ b.capacity.toNat ≤ maxAlloc
  step b l b' := (∀ r, l.2 = .readFromFD r → r.Possible b) ∧ l.2.run l.1 o b = some b' ∧
    b'.capacity.toNat ≤ maxAlloc

/-- The call is no `Truncate(n)` for which `read_index_ + n` wraps. -/
def NoWrap (b : SocketBuffer) (l : (ℕ → UInt8) × Call) : Prop :=
  ∀ n, l.2 = .op (.truncate n) → b.readIndex.toNat + n.toNat < 2 ^ 64

/-- The constructor asserts that the sum of its arguments has not wrapped. -/
theorem valid_of_construct {initialSize reservedPrependSize : UInt64}
    (hb : construct fresh initialSize reservedPrependSize = some b) :
    Valid b ∧ b.unread = [] := by
  have hb₀ := hb
  rw [construct] at hb
  obtain ⟨-, hb⟩ := of_assertion_bind hb
  obtain ⟨n, hn, -⟩ := Option.bind_eq_some_iff.mp hb
  obtain ⟨hle, -⟩ := of_assertion_bind hn
  rw [ge_iff_le, UInt64.le_iff_toNat_le, UInt64.toNat_add] at hle
  have hfit : reservedPrependSize.toNat + initialSize.toNat < 2 ^ 64 := by
    have hr := reservedPrependSize.toNat_lt
    have hi := initialSize.toNat_lt
    simp only at hle
    omega
  obtain ⟨c, hc, hvalid⟩ := construct_spec fresh hfit
  obtain rfl : c = b := Option.some.inj (hc.symm.trans hb₀)
  exact hvalid

/-- A typed read ends with `Skip`. -/
theorem skip_of_read {t : IntType} {v : Value} (h : Value.read o b t = some (v, b')) :
    b' = b.skip t.size := by
  cases t <;>
  · obtain ⟨⟨x, c⟩, hc, heq⟩ := Option.map_eq_some_iff.mp h
    obtain ⟨y, -, hc⟩ := Option.bind_eq_some_iff.mp hc
    cases hc
    cases heq
    rfl

/-- **A call that returns keeps the indices in order**, unless it is a `Truncate(n)` for which
    `read_index_ + n` wraps. -/
theorem Valid.of_call (h : Valid b) {c : Call} (hok : NoWrap b (fresh, c))
    (hrun : c.run fresh o b = some b') : Valid b' := by
  cases c with
  | op c =>
    obtain ⟨⟨out, d⟩, hd, rfl⟩ := Option.map_eq_some_iff.mp hrun
    exact h.of_op (fun n hn => hok n (by rw [hn])) hd
  | writeBegin bytes =>
    obtain ⟨-, hrun⟩ := of_assertion_bind hrun
    cases hrun
    exact ⟨h.reserved_le, h.read_le, h.write_le⟩
  | writeBytes n => exact valid_of_writeBytes h hrun
  | unreadBytes n => exact valid_of_unreadBytes h hrun
  | appendInt v =>
    rw [Call.run, Value.append_eq] at hrun
    exact (valid_of_write h hrun).1
  | prependInt v =>
    rw [Call.run, Value.prepend_eq] at hrun
    exact (valid_of_prepend h hrun).1
  | readInt t =>
    obtain ⟨⟨v, d⟩, hd, rfl⟩ := Option.map_eq_some_iff.mp hrun
    obtain rfl : d = b.skip t.size := skip_of_read hd
    exact (skip_spec h _).1
  | readUInt16 =>
    obtain ⟨⟨v, d⟩, hd, rfl⟩ := Option.map_eq_some_iff.mp hrun
    obtain ⟨x, -, hd⟩ := Option.bind_eq_some_iff.mp hd
    cases hd
    exact (skip_spec h _).1
  | readFromFD r =>
    obtain ⟨⟨v, d⟩, hd, rfl⟩ := Option.map_eq_some_iff.mp hrun
    cases r with
    | error errno =>
      obtain ⟨n, -, hd⟩ := Option.bind_eq_some_iff.mp hd
      cases hd
      exact h
    | data d => exact (valid_of_readFromFD h hd).1

/-- A buffer reached without such a `Truncate`. -/
theorem valid_of_reachable {maxAlloc : ℕ} (hb : (calls o maxAlloc).ReachableBy NoWrap b) :
    Valid b ∧ b.capacity.toNat ≤ maxAlloc := by
  refine Lts.ReachableBy.invariant (I := fun c => Valid c ∧ c.capacity.toNat ≤ maxAlloc) ?_ ?_ hb
  · rintro c ⟨⟨fresh, initialSize, reserved, hc⟩, hle⟩
    exact ⟨(valid_of_construct hc).1, hle⟩
  · rintro c ⟨fresh, l⟩ d ⟨hvalid, -⟩ hok ⟨-, hrun, hle⟩
    exact ⟨hvalid.of_call hok hrun, hle⟩

/-! ## Discarding -/

/-- What `Skip(n)`, `Next(n)` and `Truncate(n)` should do. -/
structure Discards (b : SocketBuffer) (n : UInt64) : Prop where
  skip : Valid (b.skip n) ∧ (b.skip n).unread = b.unread.drop (min n.toNat b.unread.length)
  next : Valid (b.next n) ∧
    (n.toNat ≤ b.unread.length → (b.next n).unread = b.unread.drop n.toNat) ∧
    (b.unread.length < n.toNat → b.next n = b)
  truncate : Valid (b.truncate n) ∧
    (b.truncate n).unread = b.unread.take (min n.toNat b.unread.length) ∧
    (b.unread.length < n.toNat → b.truncate n = b)

theorem skip_discards (h : Valid b) (n : UInt64) :
    Valid (b.skip n) ∧ (b.skip n).unread = b.unread.drop (min n.toNat b.unread.length) := by
  obtain ⟨hvalid, hunread⟩ := skip_spec h n
  refine ⟨hvalid, ?_⟩
  rcases Nat.le_total n.toNat b.unread.length with hle | hge
  · rw [hunread, Nat.min_eq_left hle]
  · -- more than there is: nothing is left
    rw [hunread, Nat.min_eq_right hge, List.drop_of_length_le hge, List.drop_length]

theorem next_discards (h : Valid b) (n : UInt64) : Valid (b.next n) ∧
    (n.toNat ≤ b.unread.length → (b.next n).unread = b.unread.drop n.toNat) ∧
    (b.unread.length < n.toNat → b.next n = b) := by
  obtain ⟨hvalid, hunread⟩ := next_spec h n
  refine ⟨hvalid, fun hle => ?_, fun hlt => ?_⟩
  · rw [hunread, if_pos hle]
  · rw [length_unread] at hlt
    exact if_neg (UInt64.not_le.mpr (UInt64.lt_iff_toNat_lt.mpr hlt))

theorem truncate_discards (h : Valid b) {n : UInt64}
    (hfit : b.readIndex.toNat + n.toNat < 2 ^ 64) : Valid (b.truncate n) ∧
    (b.truncate n).unread = b.unread.take (min n.toNat b.unread.length) ∧
    (b.unread.length < n.toNat → b.truncate n = b) := by
  have hread := h.read_le
  have hlen := h.length_toNat
  obtain ⟨hvalid, hunread⟩ := truncate_spec h hfit
  refine ⟨hvalid, ?_, fun hlt => ?_⟩
  · rw [hunread, List.take_eq_take_min]
  · rw [length_unread] at hlt
    have hpos : n ≠ 0 := by
      rintro rfl
      exact absurd hlt (Nat.not_lt_zero _)
    -- the comparison is with the sum itself
    have hsum := toNat_add hfit
    have hle : ¬ b.writeIndex > b.readIndex + n := by
      rw [gt_iff_lt, UInt64.lt_iff_toNat_lt, hsum]
      omega
    rw [truncate, if_neg hpos, if_neg hle]

/-- Where the sum wraps, `Truncate` moves the writing index in front of the reading index. -/
theorem truncate_wraps (h : Valid b) {n : UInt64}
    (hwrap : 2 ^ 64 ≤ b.readIndex.toNat + n.toNat) :
    (b.truncate n).writeIndex.toNat < (b.truncate n).readIndex.toNat := by
  have hread := h.read_le
  have hr := b.readIndex.toNat_lt
  have hn := n.toNat_lt
  have hpos : n ≠ 0 := by
    rintro rfl
    exact absurd hwrap (by simpa using hr)
  have hsum : (b.readIndex + n).toNat = b.readIndex.toNat + n.toNat - 2 ^ 64 := by
    rw [UInt64.toNat_add]
    omega
  have hgt : b.writeIndex > b.readIndex + n := by
    rw [gt_iff_lt, UInt64.lt_iff_toNat_lt, hsum]
    omega
  rw [truncate, if_neg hpos, if_pos hgt]
  show (b.readIndex + n).toNat < b.readIndex.toNat
  omega

/-- A run of calls keeps the indices in order exactly when no `Truncate` in it wraps. -/
theorem always_valid_iff {maxAlloc : ℕ} (h : Valid b)
    {π : List (((ℕ → UInt8) × Call) × SocketBuffer)} (hrun : (calls o maxAlloc).IsRun b π) :
    Lts.Always Valid b π ↔ Lts.Meets NoWrap b π := by
  refine Lts.always_iff_meets (fun _ h => h) ?_ ?_ h hrun
  · rintro c ⟨fresh, l⟩ d hvalid hok ⟨-, hd, -⟩
    exact hvalid.of_call hok hd
  · rintro c ⟨fresh, l⟩ d hvalid hno ⟨-, hd, -⟩ hvalid'
    rw [NoWrap] at hno
    push Not at hno
    obtain ⟨n, hl, hwrap⟩ := hno
    have hl : l = .op (.truncate n) := hl
    subst hl
    obtain rfl : c.truncate n = d := Option.some.inj hd
    exact absurd hvalid'.read_le (Nat.not_le.mpr (truncate_wraps hvalid hwrap))

/-- **Discarding.** In every run of public calls the indices stay in order exactly as long as no
    `Truncate(n)` is called with `read_index_ + n` of `2 ^ 64` or more. In every buffer that is
    reached without such a call, `Skip(n)`, `Next(n)` and `Truncate(n)` do what they should for
    every `n` for which this sum does not wrap, and for no other. -/
theorem discards_iff (o : ByteOrder) (maxAlloc : ℕ) :
    (∀ b π, (calls o maxAlloc).init b → (calls o maxAlloc).IsRun b π →
      (Lts.Always Valid b π ↔ Lts.Meets NoWrap b π)) ∧
    ∀ b, (calls o maxAlloc).ReachableBy NoWrap b → ∀ n,
      (Discards b n ↔ b.readIndex.toNat + n.toNat < 2 ^ 64) := by
  constructor
  · rintro b π ⟨⟨fresh, initialSize, reserved, hb⟩, -⟩ hrun
    exact always_valid_iff (valid_of_construct hb).1 hrun
  · intro b hb n
    have hvalid := (valid_of_reachable hb).1
    constructor
    · intro h
      by_contra hwrap
      have hlt := truncate_wraps hvalid (Nat.le_of_not_lt hwrap)
      exact absurd h.truncate.1.read_le (Nat.not_le.mpr hlt)
    · exact fun hfit =>
        ⟨skip_discards hvalid n, next_discards hvalid n, truncate_discards hvalid hfit⟩

/-- What the default constructor builds, in zeroed memory. -/
def defaultBuffer : SocketBuffer := ⟨fun _ => 0, 65544, 8, 8, 8⟩

theorem defaultBuffer_reachable (o : ByteOrder) :
    (calls o (2 ^ 40)).ReachableBy NoWrap defaultBuffer :=
  .init ⟨⟨fun _ => 0, kInitialSize, kCheapPrependSize, rfl⟩, by decide⟩

/-- The default buffer after `Append` of three bytes. -/
def threeBytes : SocketBuffer := { defaultBuffer with
  buffer := storeAt (fun _ => 0) 8 [1, 2, 3], writeIndex := 11 }

theorem threeBytes_reachable (o : ByteOrder) :
    (calls o (2 ^ 40)).ReachableBy NoWrap threeBytes :=
  .step (l := (fun _ => 0, .op (.append ⟨[1, 2, 3], 3, rfl⟩))) (defaultBuffer_reachable o) nofun
    ⟨nofun, rfl, by decide⟩

/-- The same after one `ReadByte`. -/
def twoBytes : SocketBuffer := { threeBytes with readIndex := 9 }

theorem twoBytes_reachable (o : ByteOrder) : (calls o (2 ^ 40)).ReachableBy NoWrap twoBytes :=
  .step (l := (fun _ => 0, .op .readByte)) (threeBytes_reachable o) nofun ⟨nofun, rfl, by decide⟩

theorem discards_iff_read : twoBytes.unread = [2, 3] ∧ Discards twoBytes 1 ∧
    Discards twoBytes 5 :=
  ⟨rfl, ((discards_iff .little (2 ^ 40)).2 _ (twoBytes_reachable .little) 1).mpr (by decide),
    ((discards_iff .little (2 ^ 40)).2 _ (twoBytes_reachable .little) 5).mpr (by decide)⟩

/-- **A huge argument passes the guard of Truncate.** `Truncate(SIZE_MAX)` on a fresh buffer should
    do nothing; it moves `write_index_` to 7, in front of `read_index_`, so that `length()` is
    `SIZE_MAX` as well. -/
theorem truncate_max_breaks : (calls .little (2 ^ 40)).Reachable defaultBuffer ∧
    (defaultBuffer.truncate 0xffffffffffffffff).readIndex = 8 ∧
    (defaultBuffer.truncate 0xffffffffffffffff).writeIndex = 7 ∧
    (defaultBuffer.truncate 0xffffffffffffffff).length = 0xffffffffffffffff ∧
    ¬ Discards defaultBuffer 0xffffffffffffffff := by
  refine ⟨(defaultBuffer_reachable .little).reachable, rfl, rfl, rfl, fun h => ?_⟩
  exact absurd h.truncate.1.read_le (by decide)

/-- The default buffer after `Truncate(SIZE_MAX)`. -/
def wrappedBuffer : SocketBuffer := { defaultBuffer with writeIndex := 7 }

theorem wrappedBuffer_reachable (o : ByteOrder) :
    (calls o (2 ^ 40)).Reachable wrappedBuffer :=
  .step (l := (fun _ => 0, .op (.truncate 0xffffffffffffffff)))
    (defaultBuffer_reachable o).reachable trivial ⟨nofun, rfl, by decide⟩

end ReechatBase.SocketBuffer
