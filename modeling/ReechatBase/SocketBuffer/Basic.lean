import ReechatBase.Lib.Cyclic
import Mathlib.Algebra.GroupWithZero.Nat

/-!
# SocketBuffer

The member functions of `SocketBuffer` (`socket_buffer.cpp`). Indices are `size_t`, with its
arithmetic modulo `2 ^ 64`. The result is `none` where an assertion fails or an access leaves the
array. What `new char[n]` contains is not determined: it is a parameter, `fresh`.
-/

namespace ReechatBase

open Lib.Cyclic

/-- The members of `SocketBuffer`; the array has `capacity` cells. -/
structure SocketBuffer where
  buffer : ℕ → UInt8
  capacity : UInt64
  readIndex : UInt64
  writeIndex : UInt64
  reservedPrependSize : UInt64

namespace SocketBuffer

def kCheapPrependSize : UInt64 := 8

def kInitialSize : UInt64 := 65536

/-- The bytes that a caller passes by pointer and length. -/
structure Chunk where
  bytes : List UInt8
  len : UInt64
  length_eq : bytes.length = len.toNat

/-- A chunk of one byte. -/
def Chunk.single (x : UInt8) : Chunk := ⟨[x], 1, rfl⟩

/-- `assert(p)` -/
def assertion (p : Prop) [Decidable p] : Option Unit :=
  if p then some () else none

theorem assertion_bind {α : Type} {p : Prop} [Decidable p] (h : p) (f : Unit → Option α) :
    (assertion p >>= f) = f () := by
  simp [assertion, h]

variable (fresh : ℕ → UInt8) (b : SocketBuffer)

/-! ## Queries -/

/-- `length()`, `size()` -/
def length : UInt64 := b.writeIndex - b.readIndex

def writableBytes : Option UInt64 := do
  assertion (b.capacity ≥ b.writeIndex)
  return b.capacity - b.writeIndex

def prependableBytes : UInt64 := b.readIndex

/-! ## Memory -/

/-- Read `n` bytes from index `i` on. -/
def loadBytes (i n : UInt64) : Option (List UInt8) := do
  assertion (i.toNat + n.toNat ≤ b.capacity.toNat)
  return span b.buffer i.toNat n.toNat

/-- Copy bytes to index `i`. -/
def storeBytes (i : UInt64) (bytes : List UInt8) : Option SocketBuffer := do
  assertion (i.toNat + bytes.length ≤ b.capacity.toNat)
  return { b with buffer := storeAt b.buffer i.toNat bytes }

/-! ## Member functions -/

/-- The constructor. -/
def construct (initialSize reservedPrependSize : UInt64) : Option SocketBuffer := do
  let b : SocketBuffer :=
    ⟨fresh, reservedPrependSize + initialSize, reservedPrependSize, reservedPrependSize,
      reservedPrependSize⟩
  assertion (b.length = 0)
  let writable ← b.writableBytes
  assertion (writable = initialSize)
  assertion (b.prependableBytes = reservedPrependSize)
  return b

def truncate (n : UInt64) : SocketBuffer :=
  if n = 0 then
    { b with readIndex := b.reservedPrependSize, writeIndex := b.reservedPrependSize }
  else if b.writeIndex > b.readIndex + n then
    { b with writeIndex := b.readIndex + n }
  else
    b

def reset : SocketBuffer := b.truncate 0

def skip (len : UInt64) : SocketBuffer :=
  if len < b.length then { b with readIndex := b.readIndex + len } else b.reset

def retrieve (len : UInt64) : SocketBuffer := b.skip len

def next (len : UInt64) : SocketBuffer :=
  if len ≤ b.length then { b with readIndex := b.readIndex + len } else b

/-- The branch of `grow` that allocates a larger array. -/
def reallocate (len : UInt64) : Option SocketBuffer := do
  let n := (b.capacity <<< 1) + len
  let m := b.length
  let bytes ← b.loadBytes b.readIndex m
  let d : SocketBuffer := ⟨fresh, n, b.reservedPrependSize, m + b.reservedPrependSize,
    b.reservedPrependSize⟩
  d.storeBytes b.reservedPrependSize bytes

/-- The branch of `grow` that moves the readable bytes to the front. -/
def compact (len : UInt64) : Option SocketBuffer := do
  assertion (b.reservedPrependSize < b.readIndex)
  let readable := b.length
  let bytes ← b.loadBytes b.readIndex b.length
  let moved ← b.storeBytes b.reservedPrependSize bytes
  let moved := { moved with
    readIndex := b.reservedPrependSize, writeIndex := b.reservedPrependSize + readable }
  assertion (readable = moved.length)
  let writable ← moved.writableBytes
  assertion (writable ≥ len)
  return moved

def grow (len : UInt64) : Option SocketBuffer := do
  let writable ← b.writableBytes
  if writable + b.prependableBytes < len + b.reservedPrependSize then
    b.reallocate fresh len
  else
    b.compact len

def reserve (len : UInt64) : Option SocketBuffer :=
  if b.capacity ≥ len + b.reservedPrependSize then
    some b
  else
    b.grow fresh (len + b.reservedPrependSize)

def ensureWritableBytes (len : UInt64) : Option SocketBuffer := do
  let writable ← b.writableBytes
  let b ← if writable < len then b.grow fresh len else some b
  let writable ← b.writableBytes
  assertion (writable ≥ len)
  return b

def write (d : Chunk) : Option SocketBuffer := do
  let b ← b.ensureWritableBytes fresh d.len
  let b ← b.storeBytes b.writeIndex d.bytes
  assertion (b.writeIndex + d.len ≤ b.capacity)
  return { b with writeIndex := b.writeIndex + d.len }

def append (d : Chunk) : Option SocketBuffer := b.write fresh d

def appendInt8 (x : UInt8) : Option SocketBuffer := b.write fresh (.single x)

def unwriteBytes (n : UInt64) : Option SocketBuffer := do
  assertion (n ≤ b.length)
  return { b with writeIndex := b.writeIndex - n }

def writeBytes (n : UInt64) : Option SocketBuffer := do
  let writable ← b.writableBytes
  assertion (n ≤ writable)
  return { b with writeIndex := b.writeIndex + n }

def toText : Option SocketBuffer := do
  let b ← b.appendInt8 fresh 0
  b.unwriteBytes 1

/-- Insert the chunk in front of the reading index. -/
def prepend (d : Chunk) : Option SocketBuffer := do
  assertion (d.len ≤ b.prependableBytes)
  let b := { b with readIndex := b.readIndex - d.len }
  b.storeBytes b.readIndex d.bytes

def readByte : Option (UInt8 × SocketBuffer) := do
  assertion (b.length ≥ 1)
  if b.length = 0 then
    return (0, b)
  else
    return (b.buffer b.readIndex.toNat, { b with readIndex := b.readIndex + 1 })

def unreadBytes (n : UInt64) : Option SocketBuffer := do
  assertion (n < b.readIndex)
  return { b with readIndex := b.readIndex - n }

/-! ## Reading from a descriptor -/

/-- The outcomes of `::readv`. -/
inductive Readv where
  /-- It fails with this `errno` -/
  | error (errno : Int32)
  /-- The bytes it has put into the vectors -/
  | data (d : Chunk)

/-- `sizeof extrabuf` -/
def extrabufSize : UInt64 := 65536

/-- The lengths of the vectors that `ReadFromFD` passes to `::readv`. -/
def iov (writable : UInt64) : List UInt64 :=
  let iovcnt := if writable < extrabufSize then 2 else 1
  [writable, extrabufSize].take iovcnt

/-- The part of a chunk that lies behind its first `n` bytes. -/
def Chunk.drop (d : Chunk) (n : UInt64) (h : ¬ d.len ≤ n) : Chunk where
  bytes := d.bytes.drop n.toNat
  len := d.len - n
  length_eq := by
    have hle : n ≤ d.len := UInt64.le_iff_toNat_le.mpr (by
      rw [UInt64.le_iff_toNat_le] at h
      omega)
    rw [List.length_drop, d.length_eq, UInt64.toNat_sub_of_le _ _ hle]

/-- `ReadFromFD`, with the `errno` that it saves or the number of bytes that it returns. `::readv`
    fills the free cells first and then `extrabuf`. -/
def readFromFD : Readv → Option (Except Int32 UInt64 × SocketBuffer)
  | .error errno => do
    let _ ← b.writableBytes
    return (.error errno, b)
  | .data d => do
    let writable ← b.writableBytes
    let b ← b.storeBytes b.writeIndex (d.bytes.take writable.toNat)
    if h : d.len ≤ writable then
      return (.ok d.len, { b with writeIndex := b.writeIndex + d.len })
    else
      let extrabuf := d.drop writable h
      let b ← append fresh { b with writeIndex := b.capacity } extrabuf
      return (.ok d.len, b)

end SocketBuffer

end ReechatBase
