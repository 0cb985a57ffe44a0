import ReechatBase.SocketBuffer.Basic
import ReechatBase.Lib.Transition

/-!
# SocketBuffer as a list of bytes

Every operation whose preconditions hold runs without a failing assertion and without leaving the
array, keeps the indices in order, and acts on the unread bytes as a simple function of lists.

Main result: `socketBuffer_refines_bytes`.
-/

namespace ReechatBase.SocketBuffer

open Lib Lib.Cyclic

variable (fresh : ℕ → UInt8) {b : SocketBuffer}

/-! ## The invariant -/

/-- The indices are in order. -/
structure Valid (b : SocketBuffer) : Prop where
  reserved_le : b.reservedPrependSize.toNat ≤ b.capacity.toNat
  read_le : b.readIndex.toNat ≤ b.writeIndex.toNat
  write_le : b.writeIndex.toNat ≤ b.capacity.toNat

/-- `data()[0..length())` -/
def unread (b : SocketBuffer) : List UInt8 :=
  span b.buffer b.readIndex.toNat b.length.toNat

/-- The free cells behind the unread bytes. -/
def free (b : SocketBuffer) : ℕ := b.capacity.toNat - b.writeIndex.toNat

theorem Valid.length_toNat (h : Valid b) :
    b.length.toNat = b.writeIndex.toNat - b.readIndex.toNat :=
  UInt64.toNat_sub_of_le _ _ (UInt64.le_iff_toNat_le.mpr h.read_le)

theorem Valid.unread_eq (h : Valid b) :
    b.unread = span b.buffer b.readIndex.toNat (b.writeIndex.toNat - b.readIndex.toNat) := by
  rw [unread, h.length_toNat]

theorem Valid.writableBytes (h : Valid b) :
    ∃ n, b.writableBytes = some n ∧ n.toNat = b.free := by
  have hle : b.writeIndex ≤ b.capacity := UInt64.le_iff_toNat_le.mpr h.write_le
  exact ⟨b.capacity - b.writeIndex, assertion_bind hle _, UInt64.toNat_sub_of_le _ _ hle⟩

theorem toNat_add {a c : UInt64} (h : a.toNat + c.toNat < 2 ^ 64) :
    (a + c).toNat = a.toNat + c.toNat := by
  rw [UInt64.toNat_add, Nat.mod_eq_of_lt h]

theorem toNat_double {a : UInt64} (h : 2 * a.toNat < 2 ^ 64) :
    (a <<< 1).toNat = 2 * a.toNat := by
  rw [UInt64.toNat_shiftLeft]
  show a.toNat <<< 1 % 2 ^ 64 = 2 * a.toNat
  rw [Nat.shiftLeft_eq, Nat.mod_eq_of_lt] <;> omega

/-! ## Growing -/

/-- The sums that `grow` computes fit into a `size_t`. -/
structure GrowFits (b : SocketBuffer) (len : UInt64) : Prop where
  need : len.toNat + b.reservedPrependSize.toNat < 2 ^ 64
  double : b.free + b.readIndex.toNat < len.toNat + b.reservedPrependSize.toNat →
    2 * b.capacity.toNat + len.toNat < 2 ^ 64

/-- The unread bytes now lie at the end of the reserved room. -/
structure Moved (b b' : SocketBuffer) : Prop where
  valid : Valid b'
  unread : b'.unread = b.unread
  reserved : b'.reservedPrependSize = b.reservedPrependSize

theorem length_unread (b : SocketBuffer) : b.unread.length = b.length.toNat :=
  length_span _ _ _

theorem Valid.loadBytes (h : Valid b) : b.loadBytes b.readIndex b.length = some b.unread := by
  have hread := h.read_le
  have hwrite := h.write_le
  have hlen := h.length_toNat
  exact assertion_bind (by omega) _

theorem storeBytes_eq {i : UInt64} {bytes : List UInt8}
    (h : i.toNat + bytes.length ≤ b.capacity.toNat) :
    b.storeBytes i bytes = some { b with buffer := storeAt b.buffer i.toNat bytes } :=
  assertion_bind h _

/-- Indices and an array that hold given bytes behind the reserved room. -/
theorem valid_of_store (cells : ℕ → UInt8) {capacity reserved : UInt64} {bytes : List UInt8}
    {len : UInt64} (hlen : bytes.length = len.toNat)
    (hfit : reserved.toNat + bytes.length ≤ capacity.toNat) {b' : SocketBuffer}
    (hb : b' = ⟨storeAt cells reserved.toNat bytes, capacity, reserved, len + reserved, reserved⟩) :
    Valid b' ∧ b'.unread = bytes ∧ b'.length = len ∧
      b'.free = capacity.toNat - (len.toNat + reserved.toNat) := by
  have hlt := capacity.toNat_lt
  have hwrite : (len + reserved).toNat = len.toNat + reserved.toNat := toNat_add (by omega)
  have hlength : b'.length = len := by
    subst hb
    simp [SocketBuffer.length]
  refine ⟨⟨?_, ?_, ?_⟩, ?_, hlength, ?_⟩
  · subst hb
    show reserved.toNat ≤ capacity.toNat
    omega
  · subst hb
    show reserved.toNat ≤ (len + reserved).toNat
    omega
  · subst hb
    show (len + reserved).toNat ≤ capacity.toNat
    omega
  · rw [unread, hlength, ← hlen, hb]
    exact span_storeAt _ _ _
  · subst hb
    show capacity.toNat - (len + reserved).toNat = _
    rw [hwrite]

theorem reallocate_spec (h : Valid b) {len : UInt64}
    (hfit : 2 * b.capacity.toNat + len.toNat < 2 ^ 64) :
    ∃ b', b.reallocate fresh len = some b' ∧ Moved b b' ∧
      b'.capacity.toNat = 2 * b.capacity.toNat + len.toNat ∧ len.toNat ≤ b'.free := by
  have hread := h.read_le
  have hwrite := h.write_le
  have hreserved := h.reserved_le
  have hlen := h.length_toNat
  have hcap : ((b.capacity <<< 1) + len).toNat = 2 * b.capacity.toNat + len.toNat := by
    have hdouble := toNat_double (a := b.capacity) (by omega)
    rw [toNat_add (by omega), hdouble]
  have hroom : b.reservedPrependSize.toNat + b.unread.length ≤
      ((b.capacity <<< 1) + len).toNat := by
    rw [length_unread, hcap]
    omega
  obtain ⟨hvalid, hunread, -, hfree⟩ :=
    valid_of_store fresh b.length_unread hroom rfl
  refine ⟨_, ?_, ⟨hvalid, hunread, rfl⟩, hcap, ?_⟩
  · rw [reallocate, h.loadBytes]
    exact storeBytes_eq hroom
  · rw [hfree, hcap]
    omega

theorem compact_spec (h : Valid b) {len : UInt64}
    (hlt : b.reservedPrependSize.toNat < b.readIndex.toNat)
    (hroom : len.toNat + b.reservedPrependSize.toNat ≤ b.free + b.readIndex.toNat) :
    ∃ b', b.compact len = some b' ∧ Moved b b' ∧ b'.capacity = b.capacity ∧
      len.toNat ≤ b'.free := by
  have hread := h.read_le
  have hwrite := h.write_le
  have hlen := h.length_toNat
  have hstore : b.reservedPrependSize.toNat + b.unread.length ≤ b.capacity.toNat := by
    rw [length_unread]
    omega
  obtain ⟨hvalid, hunread, hlength, hfree⟩ :=
    valid_of_store b.buffer b.length_unread hstore rfl
  have hle : len.toNat ≤ b.capacity.toNat - (b.length.toNat + b.reservedPrependSize.toNat) := by
    simp only [free] at hroom
    omega
  refine ⟨_, ?_, ⟨hvalid, hunread, rfl⟩, rfl, hfree ▸ hle⟩
  obtain ⟨n, hn, hnfree⟩ := hvalid.writableBytes
  rw [compact, assertion_bind (UInt64.lt_iff_toNat_lt.mpr hlt), h.loadBytes]
  simp only [Option.bind_eq_bind, Option.bind_some, storeBytes_eq hstore]
  rw [UInt64.add_comm b.reservedPrependSize]
  have hlast : len ≤ n := by
    rw [UInt64.le_iff_toNat_le, hnfree, hfree]
    exact hle
  -- the two assertions at the end of the compaction
  refine (assertion_bind hlength.symm _).trans ?_
  rw [hn]
  exact assertion_bind hlast _

/-- The cells that hold no unread byte; their number does not overflow. -/
theorem Valid.writable_add_read (h : Valid b) {n : UInt64} (hn : n.toNat = b.free) :
    (n + b.readIndex).toNat = b.free + b.readIndex.toNat := by
  have hread := h.read_le
  have hwrite := h.write_le
  have hlt := b.capacity.toNat_lt
  rw [← hn, toNat_add]
  simp only [free] at hn
  omega

theorem grow_spec (h : Valid b) {len : UInt64} (hneed : b.free < len.toNat)
    (hfit : GrowFits b len) : ∃ b', b.grow fresh len = some b' ∧ Moved b b' ∧
      len.toNat ≤ b'.free := by
  have hread := h.read_le
  have hwrite := h.write_le
  obtain ⟨n, hn, hnfree⟩ := h.writableBytes
  have hsum := h.writable_add_read hnfree
  have hsum' := toNat_add hfit.need
  simp only [grow, hn, Option.bind_eq_bind, Option.bind_some, prependableBytes,
    UInt64.lt_iff_toNat_lt, hsum, hsum']
  split
  · next hsmall =>
    obtain ⟨b', hb', hmoved, -, hfree⟩ := reallocate_spec fresh h (hfit.double hsmall)
    exact ⟨b', hb', hmoved, hfree⟩
  · next hroom =>
    -- the room in front of the unread bytes is needed, so it exceeds the reserved room
    obtain ⟨b', hb', hmoved, -, hfree⟩ := compact_spec h (by omega) (Nat.le_of_not_lt hroom)
    exact ⟨b', hb', hmoved, hfree⟩

/-! ## Making room -/

/-- What appending needs: where the free cells do not suffice, the sums of `grow` fit. -/
def WriteFits (b : SocketBuffer) (len : UInt64) : Prop :=
  b.free < len.toNat → GrowFits b len

theorem ensureWritableBytes_spec (h : Valid b) {len : UInt64} (hfit : WriteFits b len) :
    ∃ b', b.ensureWritableBytes fresh len = some b' ∧ Moved b b' ∧ len.toNat ≤ b'.free := by
  obtain ⟨n, hn, hnfree⟩ := h.writableBytes
  have hlt : n < len ↔ b.free < len.toNat := by rw [UInt64.lt_iff_toNat_lt, hnfree]
  by_cases hneed : b.free < len.toNat
  · -- the free cells do not suffice, so `grow` makes room
    obtain ⟨b', hb', hmoved, hfree⟩ := grow_spec fresh h hneed (hfit hneed)
    obtain ⟨n', hn', hnfree'⟩ := hmoved.valid.writableBytes
    have hle : n' ≥ len := UInt64.le_iff_toNat_le.mpr (hnfree'.symm ▸ hfree)
    refine ⟨b', ?_, hmoved, hfree⟩
    simp only [ensureWritableBytes, hn, Option.bind_eq_bind, Option.bind_some,
      if_pos (hlt.mpr hneed), hb', hn']
    exact assertion_bind hle _
  · have hle : n ≥ len := UInt64.le_iff_toNat_le.mpr (hnfree.symm ▸ Nat.le_of_not_lt hneed)
    refine ⟨b, ?_, ⟨h, rfl, rfl⟩, Nat.le_of_not_lt hneed⟩
    simp only [ensureWritableBytes, hn, Option.bind_eq_bind, Option.bind_some,
      if_neg (hlt.not.mpr hneed)]
    exact assertion_bind hle _

/-- What `Reserve` needs: the sums that it and `grow` compute fit. -/
structure ReserveFits (b : SocketBuffer) (len : UInt64) : Prop where
  need : len.toNat + b.reservedPrependSize.toNat < 2 ^ 64
  grow : b.capacity.toNat < len.toNat + b.reservedPrependSize.toNat →
    GrowFits b (len + b.reservedPrependSize)

theorem reserve_spec (h : Valid b) {len : UInt64} (hfit : ReserveFits b len) :
    ∃ b', b.reserve fresh len = some b' ∧ Moved b b' ∧
      len.toNat + b.reservedPrependSize.toNat ≤ b'.capacity.toNat := by
  have hread := h.read_le
  have hwrite := h.write_le
  have hsum := toNat_add hfit.need
  simp only [reserve, ge_iff_le, UInt64.le_iff_toNat_le, hsum]
  split
  · next hroom => exact ⟨b, rfl, ⟨h, rfl, rfl⟩, hroom⟩
  · next hsmall =>
    -- `grow` has too few cells in all, so it reallocates
    have hgrow := hfit.grow (Nat.lt_of_not_le hsmall)
    have hsum' := toNat_add hgrow.need
    obtain ⟨n, hn, hnfree⟩ := h.writableBytes
    have hall := h.writable_add_read hnfree
    have hless : b.free + b.readIndex.toNat <
        (len + b.reservedPrependSize).toNat + b.reservedPrependSize.toNat := by
      simp only [free]
      omega
    obtain ⟨b', hb', hmoved, hcap, -⟩ := reallocate_spec fresh h (hgrow.double hless)
    refine ⟨b', ?_, hmoved, by omega⟩
    simp only [grow, hn, Option.bind_eq_bind, Option.bind_some, prependableBytes,
      UInt64.lt_iff_toNat_lt, hall, hsum', if_pos hless, hb']

/-! ## Writing -/

/-- The buffer with a chunk written into its free cells. -/
def extended (b : SocketBuffer) (d : Chunk) : SocketBuffer :=
  { b with
    buffer := storeAt b.buffer b.writeIndex.toNat d.bytes, writeIndex := b.writeIndex + d.len }

theorem extended_spec (h : Valid b) {d : Chunk} (hfree : d.len.toNat ≤ b.free) :
    Valid (b.extended d) ∧ (b.extended d).unread = b.unread ++ d.bytes := by
  have hread := h.read_le
  have hwrite := h.write_le
  have hcap := b.capacity.toNat_lt
  have hlength := d.length_eq
  simp only [free] at hfree
  have hsum : (b.writeIndex + d.len).toNat = b.writeIndex.toNat + d.len.toNat :=
    toNat_add (by omega)
  have hvalid : Valid (b.extended d) := by
    refine ⟨h.reserved_le, ?_, ?_⟩
    · show b.readIndex.toNat ≤ (b.writeIndex + d.len).toNat
      omega
    · show (b.writeIndex + d.len).toNat ≤ b.capacity.toNat
      omega
  refine ⟨hvalid, ?_⟩
  -- the bytes stored come right after those that were there
  have hspan : b.readIndex.toNat + (b.writeIndex.toNat - b.readIndex.toNat) =
      b.writeIndex.toNat := by omega
  calc (b.extended d).unread
      = span (storeAt b.buffer b.writeIndex.toNat d.bytes) b.readIndex.toNat
          ((b.writeIndex + d.len).toNat - b.readIndex.toNat) := hvalid.unread_eq
    _ = span (storeAt b.buffer b.writeIndex.toNat d.bytes) b.readIndex.toNat
          (b.writeIndex.toNat - b.readIndex.toNat + d.bytes.length) := by
        rw [hsum, hlength]
        congr 1
        omega
    _ = b.unread ++ d.bytes := by
        rw [span_add, hspan, span_storeAt, h.unread_eq]
        congr 1
        exact span_congr fun j hj => storeAt_of_outside (.inl (by omega))

/-- `Write` once there is room. -/
theorem write_of_room {b' : SocketBuffer} (h : Valid b') {d : Chunk}
    (hb' : b.ensureWritableBytes fresh d.len = some b') (hfree : d.len.toNat ≤ b'.free) :
    b.write fresh d = some (b'.extended d) := by
  have hwrite := h.write_le
  have hcap := b'.capacity.toNat_lt
  have hlength := d.length_eq
  simp only [free] at hfree
  have hstore : b'.writeIndex.toNat + d.bytes.length ≤ b'.capacity.toNat := by omega
  have hle : b'.writeIndex + d.len ≤ b'.capacity := by
    rw [UInt64.le_iff_toNat_le, toNat_add (by omega)]
    omega
  simp only [write, hb', Option.bind_eq_bind, Option.bind_some, storeBytes_eq hstore]
  exact assertion_bind hle _

theorem write_spec (h : Valid b) {d : Chunk} (hfit : WriteFits b d.len) :
    ∃ b', b.write fresh d = some b' ∧ Valid b' ∧ b'.unread = b.unread ++ d.bytes := by
  obtain ⟨b₁, hb₁, hmoved, hfree⟩ := ensureWritableBytes_spec fresh h hfit
  obtain ⟨hvalid, hunread⟩ := extended_spec hmoved.valid hfree
  exact ⟨_, write_of_room fresh hmoved.valid hb₁ hfree, hvalid, hmoved.unread ▸ hunread⟩

theorem prepend_spec (h : Valid b) {d : Chunk} (hroom : d.len.toNat ≤ b.readIndex.toNat) :
    ∃ b', b.prepend d = some b' ∧ Valid b' ∧ b'.unread = d.bytes ++ b.unread := by
  have hread := h.read_le
  have hwrite := h.write_le
  have hlength := d.length_eq
  have hle : d.len ≤ b.readIndex := UInt64.le_iff_toNat_le.mpr hroom
  have hindex : (b.readIndex - d.len).toNat = b.readIndex.toNat - d.len.toNat :=
    UInt64.toNat_sub_of_le _ _ hle
  let b' : SocketBuffer := { b with
    buffer := storeAt b.buffer (b.readIndex - d.len).toNat d.bytes
    readIndex := b.readIndex - d.len }
  have hvalid : Valid b' := by
    refine ⟨h.reserved_le, ?_, h.write_le⟩
    show (b.readIndex - d.len).toNat ≤ b.writeIndex.toNat
    omega
  refine ⟨b', ?_, hvalid, ?_⟩
  · refine (assertion_bind hle _).trans (storeBytes_eq ?_)
    show (b.readIndex - d.len).toNat + d.bytes.length ≤ b.capacity.toNat
    omega
  · calc b'.unread
        = span (storeAt b.buffer (b.readIndex - d.len).toNat d.bytes) (b.readIndex - d.len).toNat
            (b.writeIndex.toNat - (b.readIndex - d.len).toNat) := hvalid.unread_eq
      _ = span (storeAt b.buffer (b.readIndex - d.len).toNat d.bytes) (b.readIndex - d.len).toNat
            (d.bytes.length + (b.writeIndex.toNat - b.readIndex.toNat)) := by
          congr 1
          omega
      _ = d.bytes ++ b.unread := by
          have hstart : (b.readIndex - d.len).toNat + d.bytes.length = b.readIndex.toNat := by omega
          rw [span_add, span_storeAt, hstart, h.unread_eq]
          congr 1
          exact span_congr fun j _ => storeAt_of_outside (.inr (by omega))

/-- The buffer with `n` bytes unwritten. -/
def unwritten (b : SocketBuffer) (n : UInt64) : SocketBuffer :=
  { b with writeIndex := b.writeIndex - n }

theorem unwriteBytes_spec (h : Valid b) {n : UInt64} (hn : n.toNat ≤ b.length.toNat) :
    b.unwriteBytes n = some (b.unwritten n) ∧ Valid (b.unwritten n) ∧
      (b.unwritten n).writeIndex.toNat = b.writeIndex.toNat - n.toNat ∧
      (b.unwritten n).unread = b.unread.take (b.unread.length - n.toNat) := by
  have hread := h.read_le
  have hwrite := h.write_le
  have hlen := h.length_toNat
  have hindex : (b.writeIndex - n).toNat = b.writeIndex.toNat - n.toNat :=
    UInt64.toNat_sub_of_le _ _ (UInt64.le_iff_toNat_le.mpr (by omega))
  have hvalid : Valid (b.unwritten n) := by
    refine ⟨h.reserved_le, ?_, ?_⟩
    · show b.readIndex.toNat ≤ (b.writeIndex - n).toNat
      omega
    · show (b.writeIndex - n).toNat ≤ b.capacity.toNat
      omega
  refine ⟨assertion_bind (UInt64.le_iff_toNat_le.mpr hn) _, hvalid, hindex, ?_⟩
  -- the span gets shorter at its back
  rw [hvalid.unread_eq, length_unread, hlen, h.unread_eq, take_span _ _ (Nat.sub_le _ _)]
  show span b.buffer b.readIndex.toNat ((b.writeIndex - n).toNat - b.readIndex.toNat) = _
  rw [hindex]
  congr 1
  omega

/-- After `ToText` a NUL stands right behind the unread bytes. -/
theorem toText_spec (h : Valid b) (hfit : WriteFits b 1) :
    ∃ b', b.toText fresh = some b' ∧ Valid b' ∧ b'.unread = b.unread ∧
      b'.writeIndex.toNat < b'.capacity.toNat ∧ b'.buffer b'.writeIndex.toNat = 0 := by
  obtain ⟨b₁, hb₁, hvalid₁, hunread₁⟩ := write_spec fresh (d := .single 0) h hfit
  have hlength : b₁.length.toNat = b.unread.length + 1 := by
    rw [← length_unread, hunread₁, List.length_append]
    rfl
  have hread := hvalid₁.read_le
  have hwrite := hvalid₁.write_le
  have hlen := hvalid₁.length_toNat
  have hone : (1 : UInt64).toNat = 1 := rfl
  obtain ⟨hb₂, hvalid₂, hwrite₂, hunread₂⟩ := unwriteBytes_spec (n := 1) hvalid₁ (by omega)
  refine ⟨b₁.unwritten 1, ?_, hvalid₂, ?_, ?_, ?_⟩
  · simp only [toText, appendInt8, hb₁, Option.bind_eq_bind, Option.bind_some, hb₂]
  · rw [hunread₂, hone, length_unread, hlength, Nat.add_sub_cancel, hunread₁, List.take_left' rfl]
  · show (b₁.unwritten 1).writeIndex.toNat < b₁.capacity.toNat
    omega
  · -- the NUL is the last byte that was unread before `UnwriteBytes`
    have hlast : b.unread ++ [0] =
        span b₁.buffer b₁.readIndex.toNat b.unread.length ++
          span b₁.buffer (b₁.readIndex.toNat + b.unread.length) 1 := by
      rw [← span_add, ← hlength]
      exact hunread₁.symm
    have hnul := (List.append_inj' hlast rfl).2
    have hindex : (b₁.unwritten 1).writeIndex.toNat = b₁.readIndex.toNat + b.unread.length := by
      omega
    show b₁.buffer (b₁.unwritten 1).writeIndex.toNat = 0
    rw [hindex]
    exact (List.cons.inj hnul).1.symm

/-! ## Discarding -/

theorem reset_spec (h : Valid b) : Valid b.reset ∧ b.reset.unread = [] := by
  refine ⟨⟨h.reserved_le, le_rfl, h.reserved_le⟩, ?_⟩
  rw [← List.length_eq_zero_iff, length_unread]
  show (b.reservedPrependSize - b.reservedPrependSize).toNat = 0
  rw [UInt64.sub_self]
  rfl

theorem truncate_spec (h : Valid b) {n : UInt64}
    (hfit : b.readIndex.toNat + n.toNat < 2 ^ 64) :
    Valid (b.truncate n) ∧ (b.truncate n).unread = b.unread.take n.toNat := by
  have hread := h.read_le
  have hwrite := h.write_le
  have hlen := h.length_toNat
  have hsum := toNat_add hfit
  rw [truncate]
  split
  · next hzero =>
    -- `if (n == 0) Reset()`
    subst hzero
    exact reset_spec h
  · split
    · next hgt =>
      rw [gt_iff_lt, UInt64.lt_iff_toNat_lt, hsum] at hgt
      have hvalid : Valid { b with writeIndex := b.readIndex + n } := by
        refine ⟨h.reserved_le, ?_, ?_⟩
        · show b.readIndex.toNat ≤ (b.readIndex + n).toNat
          omega
        · show (b.readIndex + n).toNat ≤ b.capacity.toNat
          omega
      refine ⟨hvalid, ?_⟩
      rw [hvalid.unread_eq, h.unread_eq, take_span _ _ (by omega)]
      show span b.buffer b.readIndex.toNat ((b.readIndex + n).toNat - b.readIndex.toNat) = _
      rw [hsum, Nat.add_sub_cancel_left]
    · next hle =>
      rw [gt_iff_lt, UInt64.lt_iff_toNat_lt, hsum] at hle
      refine ⟨h, (List.take_of_length_le ?_).symm⟩
      rw [length_unread]
      omega

/-- The buffer with `n` bytes read. -/
def advanced (b : SocketBuffer) (n : UInt64) : SocketBuffer :=
  { b with readIndex := b.readIndex + n }

theorem advanced_spec (h : Valid b) {n : UInt64} (hn : n.toNat ≤ b.length.toNat) :
    Valid (b.advanced n) ∧ (b.advanced n).unread = b.unread.drop n.toNat := by
  have hread := h.read_le
  have hwrite := h.write_le
  have hlen := h.length_toNat
  have hlt := b.capacity.toNat_lt
  have hsum : (b.readIndex + n).toNat = b.readIndex.toNat + n.toNat := toNat_add (by omega)
  have hvalid : Valid (b.advanced n) := by
    refine ⟨h.reserved_le, ?_, h.write_le⟩
    show (b.readIndex + n).toNat ≤ b.writeIndex.toNat
    omega
  refine ⟨hvalid, ?_⟩
  -- the span gets shorter at its front
  rw [hvalid.unread_eq, h.unread_eq, drop_span _ _ (by omega)]
  show span b.buffer (b.readIndex + n).toNat (b.writeIndex.toNat - (b.readIndex + n).toNat) = _
  rw [hsum, Nat.sub_sub]

/-- `Skip` of at least `length()` empties the buffer. -/
theorem skip_spec (h : Valid b) (n : UInt64) :
    Valid (b.skip n) ∧ (b.skip n).unread = b.unread.drop n.toNat := by
  rw [skip]
  split
  · next hlt => exact advanced_spec h (UInt64.lt_iff_toNat_lt.mp hlt).le
  · next hge =>
    rw [UInt64.lt_iff_toNat_lt, Nat.not_lt] at hge
    -- nothing is left, so that the buffer starts afresh
    rw [List.drop_of_length_le (by rwa [length_unread])]
    exact reset_spec h

@[simp] theorem capacity_skip (b : SocketBuffer) (n : UInt64) :
    (b.skip n).capacity = b.capacity := by
  rw [skip]
  split <;> rfl

/-- `Next` of more than `length()` does nothing. -/
theorem next_spec (h : Valid b) (n : UInt64) :
    Valid (b.next n) ∧ (b.next n).unread =
      if n.toNat ≤ b.unread.length then b.unread.drop n.toNat else b.unread := by
  rw [length_unread, next]
  simp only [UInt64.le_iff_toNat_le]
  split
  · next hle => exact advanced_spec h hle
  · exact ⟨h, rfl⟩

theorem readByte_spec (h : Valid b) (hn : 1 ≤ b.length.toNat) :
    ∃ x b', b.readByte = some (x, b') ∧ Valid b' ∧ b.unread = x :: b'.unread := by
  obtain ⟨hvalid, hunread⟩ := advanced_spec (n := 1) h hn
  have hpos : ¬ b.length = 0 := by
    intro hzero
    rw [hzero] at hn
    exact absurd hn (by decide)
  refine ⟨b.buffer b.readIndex.toNat, b.advanced 1, ?_, hvalid, ?_⟩
  · have hge : b.length ≥ 1 := UInt64.le_iff_toNat_le.mpr hn
    refine (assertion_bind hge _).trans ?_
    rw [if_neg hpos]
    rfl
  · obtain ⟨m, hm⟩ := Nat.exists_eq_add_of_le' hn
    rw [hunread, unread, hm, span_succ]
    rfl

/-! ## Operations -/

/-- The calls that a client may make. -/
inductive Op where
  | write (d : Chunk)
  | append (d : Chunk)
  | prepend (d : Chunk)
  | skip (len : UInt64)
  | retrieve (len : UInt64)
  | next (len : UInt64)
  | truncate (n : UInt64)
  | reset
  | readByte
  | unwriteBytes (n : UInt64)
  | reserve (len : UInt64)
  | ensureWritableBytes (len : UInt64)
  | toText

namespace Op

/-- The call, with the bytes that it returns. -/
def run (fresh : ℕ → UInt8) (b : SocketBuffer) : Op → Option (List UInt8 × SocketBuffer)
  | write d => (b.write fresh d).map (Prod.mk [])
  | append d => (b.append fresh d).map (Prod.mk [])
  | prepend d => (b.prepend d).map (Prod.mk [])
  | skip len => some ([], b.skip len)
  | retrieve len => some ([], b.retrieve len)
  | next len => some ([], b.next len)
  | truncate n => some ([], b.truncate n)
  | reset => some ([], b.reset)
  | readByte => b.readByte.map fun xb => ([xb.1], xb.2)
  | unwriteBytes n => (b.unwriteBytes n).map (Prod.mk [])
  | reserve len => (b.reserve fresh len).map (Prod.mk [])
  | ensureWritableBytes len => (b.ensureWritableBytes fresh len).map (Prod.mk [])
  | toText => (b.toText fresh).map (Prod.mk [])

/-- The preconditions: what the call asserts of its arguments, and that the sums it computes fit
    into a `size_t`. -/
def Ready (b : SocketBuffer) : Op → Prop
  | write d => WriteFits b d.len
  | append d => WriteFits b d.len
  | prepend d => d.len ≤ b.prependableBytes
  | truncate n => b.readIndex.toNat + n.toNat < 2 ^ 64
  | readByte => b.length ≥ 1
  | unwriteBytes n => n ≤ b.length
  | reserve len => ReserveFits b len
  | ensureWritableBytes len => WriteFits b len
  | toText => WriteFits b 1
  | _ => True

/-- What the call does to the list of unread bytes. -/
def apply (xs : List UInt8) : Op → List UInt8
  | write d => xs ++ d.bytes
  | append d => xs ++ d.bytes
  | prepend d => d.bytes ++ xs
  | skip len => xs.drop len.toNat
  | retrieve len => xs.drop len.toNat
  | next len => if len.toNat ≤ xs.length then xs.drop len.toNat else xs
  | truncate n => xs.take n.toNat
  | reset => []
  | readByte => xs.drop 1
  | unwriteBytes n => xs.take (xs.length - n.toNat)
  | _ => xs

/-- The bytes that the call returns. -/
def output (xs : List UInt8) : Op → List UInt8
  | readByte => xs.take 1
  | _ => []

/-- What else holds after the call. -/
def Post (b : SocketBuffer) : Op → Prop
  | reserve len => b.capacity ≥ len
  | ensureWritableBytes len => ∃ n, b.writableBytes = some n ∧ n ≥ len
  | toText => b.writeIndex < b.capacity ∧ b.buffer b.writeIndex.toNat = 0
  | _ => True

/-- The call runs, and acts on the unread bytes as it should. -/
def Refines (fresh : ℕ → UInt8) (b : SocketBuffer) (op : Op) : Prop :=
  ∃ b', op.run fresh b = some (op.output b.unread, b') ∧ Valid b' ∧
    b'.unread = op.apply b.unread ∧ op.Post b'

end Op

theorem Valid.refines (h : Valid b) {op : Op} (hready : op.Ready b) :
    op.Refines fresh b := by
  cases op with
  | write d =>
    obtain ⟨b', hb', hvalid, hunread⟩ := write_spec fresh h hready
    exact ⟨b', by simp only [Op.run, hb']; rfl, hvalid, hunread, trivial⟩
  | append d =>
    obtain ⟨b', hb', hvalid, hunread⟩ := write_spec fresh h hready
    exact ⟨b', by simp only [Op.run, append, hb']; rfl, hvalid, hunread, trivial⟩
  | prepend d =>
    obtain ⟨b', hb', hvalid, hunread⟩ := prepend_spec h (UInt64.le_iff_toNat_le.mp hready)
    exact ⟨b', by simp only [Op.run, hb']; rfl, hvalid, hunread, trivial⟩
  | skip len => exact ⟨_, rfl, (skip_spec h len).1, (skip_spec h len).2, trivial⟩
  | retrieve len => exact ⟨_, rfl, (skip_spec h len).1, (skip_spec h len).2, trivial⟩
  | next len => exact ⟨_, rfl, (next_spec h len).1, (next_spec h len).2, trivial⟩
  | truncate n =>
    exact ⟨_, rfl, (truncate_spec h hready).1, (truncate_spec h hready).2, trivial⟩
  | reset => exact ⟨_, rfl, (reset_spec h).1, (reset_spec h).2, trivial⟩
  | readByte =>
    obtain ⟨x, b', hb', hvalid, hunread⟩ := readByte_spec h (UInt64.le_iff_toNat_le.mp hready)
    refine ⟨b', ?_, hvalid, ?_, trivial⟩
    · simp only [Op.run, hb', Op.output, hunread]
      rfl
    · simp [Op.apply, hunread]
  | unwriteBytes n =>
    obtain ⟨hb', hvalid, -, hunread⟩ := unwriteBytes_spec h (UInt64.le_iff_toNat_le.mp hready)
    exact ⟨_, by simp only [Op.run, hb']; rfl, hvalid, hunread, trivial⟩
  | reserve len =>
    obtain ⟨b', hb', hmoved, hcap⟩ := reserve_spec fresh h hready
    refine ⟨b', by simp only [Op.run, hb']; rfl, hmoved.valid, hmoved.unread, ?_⟩
    exact UInt64.le_iff_toNat_le.mpr (by omega)
  | ensureWritableBytes len =>
    obtain ⟨b', hb', hmoved, hfree⟩ := ensureWritableBytes_spec fresh h hready
    obtain ⟨n, hn, hnfree⟩ := hmoved.valid.writableBytes
    refine ⟨b', by simp only [Op.run, hb']; rfl, hmoved.valid, hmoved.unread, n, hn, ?_⟩
    exact UInt64.le_iff_toNat_le.mpr (hnfree ▸ hfree)
  | toText =>
    obtain ⟨b', hb', hvalid, hunread, hlt, hnul⟩ := toText_spec fresh h hready
    exact ⟨b', by simp only [Op.run, hb']; rfl, hvalid, hunread, UInt64.lt_iff_toNat_lt.mpr hlt,
      hnul⟩

/-! ## Main result -/

/-- A client that respects the preconditions, on a buffer from the constructor. -/
def client (initialSize reservedPrependSize : UInt64) :
    Lts SocketBuffer ((ℕ → UInt8) × Op) where
  init b := ∃ fresh, construct fresh initialSize reservedPrependSize = some b
  step b l b' := l.2.Ready b ∧ ∃ out, l.2.run l.1 b = some (out, b')

theorem construct_spec {initialSize reservedPrependSize : UInt64}
    (hfit : reservedPrependSize.toNat + initialSize.toNat < 2 ^ 64) :
    ∃ b, construct fresh initialSize reservedPrependSize = some b ∧ Valid b ∧ b.unread = [] := by
  let b : SocketBuffer := ⟨fresh, reservedPrependSize + initialSize, reservedPrependSize,
    reservedPrependSize, reservedPrependSize⟩
  have hsum := toNat_add hfit
  have hroom : reservedPrependSize.toNat ≤ (reservedPrependSize + initialSize).toNat := by omega
  have hvalid : Valid b := ⟨hroom, le_rfl, hroom⟩
  have hempty : b.length = 0 := UInt64.sub_self _
  have hwritable : b.writableBytes = some initialSize := by
    refine (assertion_bind (UInt64.le_iff_toNat_le.mpr hroom) _).trans (congrArg some ?_)
    show reservedPrependSize + initialSize - reservedPrependSize = initialSize
    rw [UInt64.add_comm, UInt64.add_sub_cancel]
  refine ⟨b, ?_, hvalid, ?_⟩
  · refine (assertion_bind hempty _).trans ?_
    show (b.writableBytes >>= _) = _
    rw [hwritable]
    exact (assertion_bind rfl _).trans (assertion_bind rfl _)
  · rw [unread, hempty]
    rfl

theorem valid_of_init {initialSize reservedPrependSize : UInt64}
    (hfit : reservedPrependSize.toNat + initialSize.toNat < 2 ^ 64) {b : SocketBuffer}
    (hb : (client initialSize reservedPrependSize).init b) : Valid b ∧ b.unread = [] := by
  obtain ⟨fresh, hb⟩ := hb
  obtain ⟨b', hb', h⟩ := construct_spec fresh hfit
  obtain rfl : b' = b := Option.some.inj (hb'.symm.trans hb)
  exact h

/-- One call of the client. -/
theorem Valid.step (h : Valid b) {initialSize reservedPrependSize : UInt64} {b' : SocketBuffer}
    {l : (ℕ → UInt8) × Op} (hst : (client initialSize reservedPrependSize).step b l b') :
    Valid b' ∧ b'.unread = l.2.apply b.unread := by
  obtain ⟨hready, out, hrun⟩ := hst
  obtain ⟨b'', hrun', hvalid, hunread, -⟩ := h.refines l.1 hready
  obtain rfl : b'' = b' := (Prod.mk.inj (Option.some.inj (hrun'.symm.trans hrun))).2
  exact ⟨hvalid, hunread⟩

/-- A run of the client is a run on lists. -/
theorem Valid.run (h : Valid b) {initialSize reservedPrependSize : UInt64}
    {π : List (((ℕ → UInt8) × Op) × SocketBuffer)}
    (hrun : (client initialSize reservedPrependSize).IsRun b π) :
    (Lts.lastState b π).unread = π.foldl (fun xs l => l.1.2.apply xs) b.unread := by
  induction π generalizing b with
  | nil => rfl
  | cons p π ih =>
    obtain ⟨hvalid, hunread⟩ := h.step hrun.1
    rw [List.foldl_cons, ← hunread]
    exact ih hvalid hrun.2

/-- **SocketBuffer is a list of bytes with front room.** When the sizes of the constructor do not
    overflow, it succeeds and yields an empty buffer; in every buffer that the client can reach
    the indices are in order, and every call whose preconditions hold runs without a failing
    assertion, acts on the unread bytes as on a list, and makes the room it promises. So in every
    run the unread bytes are the list that the calls make. -/
theorem socketBuffer_refines_bytes {initialSize reservedPrependSize : UInt64}
    (hfit : reservedPrependSize.toNat + initialSize.toNat < 2 ^ 64) :
    (∀ fresh, ∃ b, construct fresh initialSize reservedPrependSize = some b ∧ b.unread = []) ∧
    (∀ b, (client initialSize reservedPrependSize).Reachable b → Valid b ∧
      ∀ (fresh : ℕ → UInt8) (op : Op), op.Ready b → op.Refines fresh b) ∧
    ∀ b π, (client initialSize reservedPrependSize).init b →
      (client initialSize reservedPrependSize).IsRun b π →
      (Lts.lastState b π).unread = π.foldl (fun xs l => l.1.2.apply xs) [] := by
  refine ⟨fun fresh => ?_, fun b hb => ?_, fun b π hb hrun => ?_⟩
  · obtain ⟨b, hb, -, hunread⟩ := construct_spec fresh hfit
    exact ⟨b, hb, hunread⟩
  · have hvalid : Valid b :=
      hb.invariant (fun _ hb => (valid_of_init hfit hb).1) fun _ _ _ h hst => (h.step hst).1
    exact ⟨hvalid, fun fresh op hready => hvalid.refines fresh hready⟩
  · obtain ⟨hvalid, hempty⟩ := valid_of_init hfit hb
    rw [← hempty]
    exact hvalid.run hrun

/-- A small buffer that `Append` compacts once and reallocates once. -/
theorem socketBuffer_refines_bytes_growing : ∃ b π, (client 4 2).init b ∧ (client 4 2).IsRun b π ∧
    π.map (·.1.2) = [.append ⟨[1, 2, 3], 3, rfl⟩, .readByte, .append ⟨[4, 5], 2, rfl⟩,
      .append ⟨[6, 7, 8], 3, rfl⟩, .prepend ⟨[9], 1, rfl⟩] ∧
    (Lts.lastState b π).unread = [9, 2, 3, 4, 5, 6, 7, 8] := by
  have hinit : (client 4 2).init ⟨fun _ => 0, 6, 2, 2, 2⟩ := ⟨fun _ => 0, rfl⟩
  have hrun : (client 4 2).IsRun ⟨fun _ => 0, 6, 2, 2, 2⟩ [
      ((fun _ => 0, .append ⟨[1, 2, 3], 3, rfl⟩),
        ⟨storeAt (fun _ => 0) 2 [1, 2, 3], 6, 2, 5, 2⟩),
      ((fun _ => 0, .readByte), ⟨storeAt (fun _ => 0) 2 [1, 2, 3], 6, 3, 5, 2⟩),
      ((fun _ => 0, .append ⟨[4, 5], 2, rfl⟩),
        ⟨storeAt (storeAt (storeAt (fun _ => 0) 2 [1, 2, 3]) 2 [2, 3]) 4 [4, 5], 6, 2, 6, 2⟩),
      ((fun _ => 0, .append ⟨[6, 7, 8], 3, rfl⟩),
        ⟨storeAt (storeAt (fun _ => 0) 2 [2, 3, 4, 5]) 6 [6, 7, 8], 15, 2, 9, 2⟩),
      ((fun _ => 0, .prepend ⟨[9], 1, rfl⟩),
        ⟨storeAt (storeAt (storeAt (fun _ => 0) 2 [2, 3, 4, 5]) 6 [6, 7, 8]) 1 [9],
          15, 1, 9, 2⟩)] := by
    refine ⟨⟨fun h => absurd h (by decide), _, rfl⟩, ⟨?_, _, rfl⟩, ⟨fun _ => ?_, _, rfl⟩,
      ⟨fun _ => ⟨by decide, fun _ => by decide⟩, _, rfl⟩, ⟨?_, _, rfl⟩, trivial⟩
    · exact (by decide : (3 : UInt64) ≥ 1)
    · -- the room in front of the unread bytes suffices
      exact ⟨by decide, fun h => absurd h (by decide)⟩
    · exact (by decide : (1 : UInt64) ≤ 2)
  exact ⟨_, _, hinit, hrun, rfl, (socketBuffer_refines_bytes (by decide)).2.2 _ _ hinit hrun⟩
end ReechatBase.SocketBuffer
