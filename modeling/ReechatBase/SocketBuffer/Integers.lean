import ReechatBase.SocketBuffer.Refinement
import ReechatBase.Lib.Endian
import ReechatBase.TcpSocket.Basic

/-!
# Typed integers in a SocketBuffer

`AppendInt64` and its siblings store an integer in network byte order, `ReadInt64` and its siblings
take it out again. An integer is an object in the memory of the host; `evppbswap_64` exchanges its
bytes on every host, `htonl` and `htons` on a little-endian host only.

- `evppbswap64_toNat`: the macro reverses the eight bytes;
- `Value.decode_bytes`: what a reader makes of the bytes that the writer has stored;
- `Value.bytes_little`: on a little-endian host these are the network byte order.
-/

namespace ReechatBase

namespace SocketBuffer

open Lib.Cyclic Lib.Endian
open TcpSocket (ByteOrder)

/-! ## Byte swapping -/

/-- The macro `evppbswap_64`. -/
def evppbswap64 (x : UInt64) : UInt64 :=
  ((x &&& 0xff00000000000000) >>> 56)
    ||| ((x &&& 0x00ff000000000000) >>> 40)
    ||| ((x &&& 0x0000ff0000000000) >>> 24)
    ||| ((x &&& 0x000000ff00000000) >>> 8)
    ||| ((x &&& 0x00000000ff000000) <<< 8)
    ||| ((x &&& 0x0000000000ff0000) <<< 24)
    ||| ((x &&& 0x000000000000ff00) <<< 40)
    ||| ((x &&& 0x00000000000000ff) <<< 56)

/-- `htonl` of the host. -/
def htonl : ByteOrder → UInt32 → UInt32
  | .little, x => UInt32.ofNat (swap 4 x.toNat)
  | .big, x => x

/-- `ntohl` of the host. -/
def ntohl : ByteOrder → UInt32 → UInt32
  | .little, x => UInt32.ofNat (swap 4 x.toNat)
  | .big, x => x

/-- `htons` of the host. -/
def htons : ByteOrder → UInt16 → UInt16
  | .little, x => UInt16.ofNat (swap 2 x.toNat)
  | .big, x => x

/-- `ntohs` of the host. -/
def ntohs : ByteOrder → UInt16 → UInt16
  | .little, x => UInt16.ofNat (swap 2 x.toNat)
  | .big, x => x

/-- `rtc::NetworkToHost16`, which is `be16toh`. -/
def networkToHost16 (o : ByteOrder) (x : UInt16) : UInt16 := ntohs o x

/-- A byte is masked out and moved down. -/
theorem byte_down (x mask s : UInt64) (j k : ℕ) (hmask : mask.toNat = 255 * 2 ^ j)
    (hs : s.toNat % 64 + k = j) :
    ((x &&& mask) >>> s).toNat = x.toNat / 2 ^ j % 256 * 2 ^ k := by
  rw [UInt64.toNat_shiftRight, UInt64.toNat_and, hmask, and_byte_mask, Nat.shiftRight_eq_div_pow,
    ← hs, Nat.pow_add _ (s.toNat % 64) k]
  apply Nat.div_eq_of_eq_mul_left (Nat.two_pow_pos _)
  rw [Nat.mul_assoc, Nat.mul_comm (2 ^ k)]

/-- A byte is masked out and moved up. -/
theorem byte_up (x mask s : UInt64) (j k : ℕ) (hmask : mask.toNat = 255 * 2 ^ j)
    (hs : j + s.toNat % 64 = k) (hk : k ≤ 56) :
    ((x &&& mask) <<< s).toNat = x.toNat / 2 ^ j % 256 * 2 ^ k := by
  have hlt : x.toNat / 2 ^ j % 256 * 2 ^ k < 2 ^ 64 :=
    calc x.toNat / 2 ^ j % 256 * 2 ^ k
        < 256 * 2 ^ k := Nat.mul_lt_mul_of_pos_right (Nat.mod_lt _ (by decide)) (Nat.two_pow_pos k)
      _ ≤ 256 * 2 ^ 56 := Nat.mul_le_mul_left _ (Nat.pow_le_pow_right (by decide) hk)
  rw [UInt64.toNat_shiftLeft, UInt64.toNat_and, hmask, and_byte_mask, Nat.shiftLeft_eq,
    Nat.mul_assoc, ← Nat.pow_add, hs, Nat.mod_eq_of_lt hlt]

/-- **`evppbswap_64` reverses the eight bytes.** -/
theorem evppbswap64_toNat (x : UInt64) : (evppbswap64 x).toNat = swap 8 x.toNat := by
  have h₇ := byte_down x 0xff00000000000000 56 56 0 (by decide) (by decide)
  have h₆ := byte_down x 0x00ff000000000000 40 48 8 (by decide) (by decide)
  have h₅ := byte_down x 0x0000ff0000000000 24 40 16 (by decide) (by decide)
  have h₄ := byte_down x 0x000000ff00000000 8 32 24 (by decide) (by decide)
  have h₃ := byte_up x 0x00000000ff000000 8 24 32 (by decide) (by decide) (by decide)
  have h₂ := byte_up x 0x0000000000ff0000 24 16 40 (by decide) (by decide) (by decide)
  have h₁ := byte_up x 0x000000000000ff00 40 8 48 (by decide) (by decide) (by decide)
  have h₀ := byte_up x 0x00000000000000ff 56 0 56 (by decide) (by decide) (by decide)
  simp only [evppbswap64, UInt64.toNat_or]
  rw [h₀, h₁, h₂, h₃, h₄, h₅, h₆, h₇]
  -- the bytes are put together from the top one of `x` on
  simp only [swap, toBytes, List.reverse_cons, List.reverse_nil, ofBytes_concat, ofBytes,
    UInt8.toNat_ofNat', Nat.div_div_eq_div_mul, List.length_append, List.length_nil,
    List.length_singleton]
  simp only [Nat.reducePow, Nat.reduceMul, Nat.reduceAdd, Nat.zero_or, Nat.div_one]

@[simp] theorem evppbswap64_evppbswap64 (x : UInt64) : evppbswap64 (evppbswap64 x) = x := by
  apply UInt64.toNat_inj.mp
  rw [evppbswap64_toNat, evppbswap64_toNat]
  exact swap_swap x.toNat_lt

theorem htonl_little_toNat (x : UInt32) : (htonl .little x).toNat = swap 4 x.toNat :=
  UInt32.toNat_ofNat_of_lt' (swap_lt 4 _)

theorem htons_little_toNat (x : UInt16) : (htons .little x).toNat = swap 2 x.toNat :=
  UInt16.toNat_ofNat_of_lt' (swap_lt 2 _)

@[simp] theorem ntohl_htonl (o : ByteOrder) (x : UInt32) : ntohl o (htonl o x) = x := by
  cases o with
  | little =>
    rw [ntohl, htonl_little_toNat, swap_swap x.toNat_lt, UInt32.ofNat_toNat]
  | big => rfl

@[simp] theorem ntohs_htons (o : ByteOrder) (x : UInt16) : ntohs o (htons o x) = x := by
  cases o with
  | little =>
    rw [ntohs, htons_little_toNat, swap_swap x.toNat_lt, UInt16.ofNat_toNat]
  | big => rfl

/-! ## Objects in memory -/

/-- The bytes of an object of `w` bytes. -/
def memory : ByteOrder → ℕ → ℕ → List UInt8
  | .little, w, x => toBytes w x
  | .big, w, x => (toBytes w x).reverse

/-- The object that consists of these bytes. -/
def object : ByteOrder → List UInt8 → ℕ
  | .little, cs => ofBytes cs
  | .big, cs => ofBytes cs.reverse

@[simp] theorem length_memory (o : ByteOrder) (w x : ℕ) : (memory o w x).length = w := by
  cases o with
  | little => exact length_toBytes w x
  | big => rw [memory, List.length_reverse, length_toBytes]

/-- Reading an object back. -/
theorem object_memory (o : ByteOrder) {w x : ℕ} (hx : x < 256 ^ w) :
    object o (memory o w x) = x := by
  cases o with
  | little => exact ofBytes_toBytes hx
  | big => rw [memory, object, List.reverse_reverse, ofBytes_toBytes hx]

/-- An object of `w` bytes, passed by its address and its size. -/
def Chunk.object (o : ByteOrder) (w : UInt64) (x : ℕ) : Chunk where
  bytes := memory o w.toNat x
  len := w
  length_eq := length_memory o _ _

/-! ## Member functions -/

section Functions

variable (fresh : ℕ → UInt8) (o : ByteOrder) (b : SocketBuffer)

def appendInt64 (x : Int64) : Option SocketBuffer :=
  let be := (evppbswap64 x.toUInt64).toInt64
  b.write fresh (.object o 8 be.toUInt64.toNat)

def appendInt32 (x : Int32) : Option SocketBuffer :=
  let be32 := (htonl o x.toUInt32).toInt32
  b.write fresh (.object o 4 be32.toUInt32.toNat)

def appendInt16 (x : Int16) : Option SocketBuffer :=
  let be16 := (htons o x.toUInt16).toInt16
  b.write fresh (.object o 2 be16.toUInt16.toNat)

def prependInt64 (x : Int64) : Option SocketBuffer :=
  let be := (evppbswap64 x.toUInt64).toInt64
  b.prepend (.object o 8 be.toUInt64.toNat)

def prependInt32 (x : Int32) : Option SocketBuffer :=
  let be32 := (htonl o x.toUInt32).toInt32
  b.prepend (.object o 4 be32.toUInt32.toNat)

def prependInt16 (x : Int16) : Option SocketBuffer :=
  let be16 := (htons o x.toUInt16).toInt16
  b.prepend (.object o 2 be16.toUInt16.toNat)

def prependInt8 (x : Int8) : Option SocketBuffer :=
  b.prepend (.object o 1 x.toUInt8.toNat)

/-- The first `w` unread bytes as an object. -/
def peekObject (w : UInt64) : Option ℕ := do
  assertion (b.length ≥ w)
  let bytes ← b.loadBytes b.readIndex w
  return object o bytes

def peekInt64 : Option Int64 := do
  let be64 ← b.peekObject o 8
  return (evppbswap64 (UInt64.ofNat be64)).toInt64

def peekInt32 : Option Int32 := do
  let be32 ← b.peekObject o 4
  return (ntohl o (UInt32.ofNat be32)).toInt32

def peekInt16 : Option Int16 := do
  let be16 ← b.peekObject o 2
  return (ntohs o (UInt16.ofNat be16)).toInt16

def peekUInt16 : Option UInt16 := do
  let be16 ← b.peekObject o 2
  return networkToHost16 o (UInt16.ofNat be16)

def peekInt8 : Option Int8 := do
  let x ← b.peekObject o 1
  return (UInt8.ofNat x).toInt8

def readInt64 : Option (Int64 × SocketBuffer) := do
  let result ← b.peekInt64 o
  return (result, b.skip 8)

def readInt32 : Option (Int32 × SocketBuffer) := do
  let result ← b.peekInt32 o
  return (result, b.skip 4)

def readInt16 : Option (Int16 × SocketBuffer) := do
  let result ← b.peekInt16 o
  return (result, b.skip 2)

/-- The result of `PeekInt16` is converted to `uint16_t`. -/
def readUInt16 : Option (UInt16 × SocketBuffer) := do
  let result ← b.peekInt16 o
  return (result.toUInt16, b.skip 2)

def readInt8 : Option (Int8 × SocketBuffer) := do
  let result ← b.peekInt8 o
  return (result, b.skip 1)

end Functions

/-! ## Any of the four types -/

/-- The types of the integers in a buffer. -/
inductive IntType where
  | int8
  | int16
  | int32
  | int64
  deriving DecidableEq

/-- `sizeof` -/
def IntType.size : IntType → UInt64
  | int8 => 1
  | int16 => 2
  | int32 => 4
  | int64 => 8

/-- An integer of one of these types. -/
inductive Value where
  | int8 (x : Int8)
  | int16 (x : Int16)
  | int32 (x : Int32)
  | int64 (x : Int64)
  deriving DecidableEq

namespace Value

variable (fresh : ℕ → UInt8) (o : ByteOrder) (b : SocketBuffer)

def type : Value → IntType
  | int8 _ => .int8
  | int16 _ => .int16
  | int32 _ => .int32
  | int64 _ => .int64

/-- The two's complement representation. -/
def bits : Value → ℕ
  | int8 x => x.toUInt8.toNat
  | int16 x => x.toUInt16.toNat
  | int32 x => x.toUInt32.toNat
  | int64 x => x.toUInt64.toNat

/-- `AppendInt8`, `AppendInt16`, `AppendInt32` or `AppendInt64`. -/
def append : Value → Option SocketBuffer
  | int8 x => b.appendInt8 fresh x.toUInt8
  | int16 x => b.appendInt16 fresh o x
  | int32 x => b.appendInt32 fresh o x
  | int64 x => b.appendInt64 fresh o x

/-- `PrependInt8`, `PrependInt16`, `PrependInt32` or `PrependInt64`. -/
def prepend : Value → Option SocketBuffer
  | int8 x => b.prependInt8 o x
  | int16 x => b.prependInt16 o x
  | int32 x => b.prependInt32 o x
  | int64 x => b.prependInt64 o x

/-- `ReadInt8`, `ReadInt16`, `ReadInt32` or `ReadInt64`. -/
def read : IntType → Option (Value × SocketBuffer)
  | .int8 => (b.readInt8 o).map fun xb => (int8 xb.1, xb.2)
  | .int16 => (b.readInt16 o).map fun xb => (int16 xb.1, xb.2)
  | .int32 => (b.readInt32 o).map fun xb => (int32 xb.1, xb.2)
  | .int64 => (b.readInt64 o).map fun xb => (int64 xb.1, xb.2)

/-- The object that the writer passes to `Write` or `Prepend`. -/
def stored : Value → ℕ
  | int8 x => x.toUInt8.toNat
  | int16 x => (htons o x.toUInt16).toNat
  | int32 x => (htonl o x.toUInt32).toNat
  | int64 x => (evppbswap64 x.toUInt64).toNat

/-- The object as the writer passes it. -/
def chunk (v : Value) : Chunk := .object o v.type.size (v.stored o)

/-- The bytes that stand for a value in the buffer. -/
def bytes (v : Value) : List UInt8 := memory o v.type.size.toNat (v.stored o)

/-- What a reader makes of the bytes in the buffer. -/
def decode (cs : List UInt8) : IntType → Value
  | .int8 => int8 (UInt8.ofNat (object o cs)).toInt8
  | .int16 => int16 (ntohs o (UInt16.ofNat (object o cs))).toInt16
  | .int32 => int32 (ntohl o (UInt32.ofNat (object o cs))).toInt32
  | .int64 => int64 (evppbswap64 (UInt64.ofNat (object o cs))).toInt64

@[simp] theorem length_bytes (v : Value) : (v.bytes o).length = v.type.size.toNat :=
  length_memory o _ _

theorem append_eq (v : Value) : v.append fresh o b = b.write fresh (v.chunk o) := by
  cases v with
  | int8 x =>
    -- `AppendInt8` passes its argument as it is
    have hsingle : Chunk.single x.toUInt8 = .object o 1 x.toUInt8.toNat := by
      cases o <;> simp [Chunk.single, Chunk.object, memory, toBytes]
    exact congrArg (b.write fresh) hsingle
  | _ => rfl

theorem prepend_eq (v : Value) : v.prepend o b = b.prepend (v.chunk o) := by
  cases v <;> rfl

theorem stored_lt (v : Value) : v.stored o < 256 ^ v.type.size.toNat := by
  cases v with
  | int8 x => exact x.toUInt8.toNat_lt
  | int16 x => exact (htons o x.toUInt16).toNat_lt
  | int32 x => exact (htonl o x.toUInt32).toNat_lt
  | int64 x => exact (evppbswap64 x.toUInt64).toNat_lt

/-- **Reading a value back.** -/
theorem decode_bytes (v : Value) : decode o (v.bytes o) v.type = v := by
  have hobject : SocketBuffer.object o (v.bytes o) = v.stored o := object_memory o (v.stored_lt o)
  cases v with
  | int8 x =>
    rw [type, decode, hobject, stored, UInt8.ofNat_toNat, Int8.toInt8_toUInt8]
  | int16 x =>
    rw [type, decode, hobject, stored, UInt16.ofNat_toNat, ntohs_htons, Int16.toInt16_toUInt16]
  | int32 x =>
    rw [type, decode, hobject, stored, UInt32.ofNat_toNat, ntohl_htonl, Int32.toInt32_toUInt32]
  | int64 x =>
    rw [type, decode, hobject, stored, UInt64.ofNat_toNat, evppbswap64_evppbswap64,
      Int64.toInt64_toUInt64]

/-- **Network byte order.** On a little-endian host the bytes of a value are those of its
    representation, most significant first. -/
theorem bytes_little (v : Value) :
    v.bytes .little = (toBytes v.type.size.toNat v.bits).reverse := by
  cases v with
  | int8 x => rfl
  | int16 x =>
    show toBytes 2 (htons .little x.toUInt16).toNat = _
    rw [htons_little_toNat, toBytes_swap]
    rfl
  | int32 x =>
    show toBytes 4 (htonl .little x.toUInt32).toNat = _
    rw [htonl_little_toNat, toBytes_swap]
    rfl
  | int64 x =>
    show toBytes 8 (evppbswap64 x.toUInt64).toNat = _
    rw [evppbswap64_toNat, toBytes_swap]
    rfl

end Value

variable {b : SocketBuffer} {o : ByteOrder}

theorem peekObject_spec (h : Valid b) {w : UInt64} (hw : w.toNat ≤ b.unread.length) :
    b.peekObject o w = some (object o (b.unread.take w.toNat)) := by
  have hlen := h.length_toNat
  have hread := h.read_le
  have hwrite := h.write_le
  rw [length_unread] at hw
  have hbytes : b.loadBytes b.readIndex w = some (b.unread.take w.toNat) := by
    rw [h.unread_eq, take_span _ _ (by omega)]
    exact assertion_bind (by omega) _
  rw [peekObject, assertion_bind (UInt64.le_iff_toNat_le.mpr hw), hbytes]
  rfl

/-- **Reading** where enough bytes are unread. -/
theorem read_spec (h : Valid b) {t : IntType} (ht : t.size.toNat ≤ b.unread.length) :
    Value.read o b t = some (Value.decode o (b.unread.take t.size.toNat) t, b.skip t.size) := by
  have hpeek := peekObject_spec (o := o) h ht
  cases t with
  | int8 =>
    rw [IntType.size] at hpeek
    rw [Value.read, readInt8, peekInt8, hpeek]
    rfl
  | int16 =>
    rw [IntType.size] at hpeek
    rw [Value.read, readInt16, peekInt16, hpeek]
    rfl
  | int32 =>
    rw [IntType.size] at hpeek
    rw [Value.read, readInt32, peekInt32, hpeek]
    rfl
  | int64 =>
    rw [IntType.size] at hpeek
    rw [Value.read, readInt64, peekInt64, hpeek]
    rfl

/-- A value whose bytes stand at the front is read. -/
theorem read_of_bytes (h : Valid b) {v : Value} {rest : List UInt8}
    (hunread : b.unread = v.bytes o ++ rest) :
    Value.read o b v.type = some (v, b.skip v.type.size) ∧ Valid (b.skip v.type.size) ∧
      (b.skip v.type.size).unread = rest := by
  have hlen := v.length_bytes o
  obtain ⟨hvalid, hskip⟩ := skip_spec h v.type.size
  refine ⟨?_, hvalid, ?_⟩
  · rw [read_spec h (by rw [hunread, List.length_append, hlen]; exact Nat.le_add_right _ _),
      hunread, List.take_left' hlen, Value.decode_bytes]
  · rw [hskip, hunread, List.drop_left' hlen]

/-- `ReadUInt16` and `PeekUInt16` return the 16 bits that `ReadInt16` and `PeekInt16` return. -/
theorem uint16_eq (b : SocketBuffer) (o : ByteOrder) :
    b.peekUInt16 o = (b.peekInt16 o).map Int16.toUInt16 ∧
      b.readUInt16 o = (b.readInt16 o).map fun xb => (xb.1.toUInt16, xb.2) := by
  constructor
  · rw [peekUInt16, peekInt16]
    cases b.peekObject o 2 <;> rfl
  · rw [readUInt16, readInt16]
    cases b.peekInt16 o <;> rfl

end SocketBuffer

end ReechatBase
