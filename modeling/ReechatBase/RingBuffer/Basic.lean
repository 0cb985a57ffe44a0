import ReechatBase.Lib.Program
import Mathlib.Algebra.Group.Nat.Defs
import Mathlib.Logic.Function.Basic

/-!
# RingBuffer

The member functions of `RingBuffer` (`socket_buffer.cpp`) as programs of atomic actions. One
action is one load or store of `read_count_` or `write_count_`, one byte moved to or from
`data_arr_`, or one `assert`. Run alone (`Prog.run`) a program is the C++ function; interleaved
with the other thread it is the function as the hardware executes it.

`uint32_t` is `UInt32`, so differences and sums wrap as they do in the code. Pointers into
`data_arr_` are cell indices.
-/

namespace ReechatBase.RingBuffer

open Lib Lib.Prog

/-- The constant members `capacity_` and `max_index_`. -/
structure Shape where
  capacity : UInt32
  maxIndex : UInt32

/-- The constants that the constructor `RingBuffer(uint32_t capacity)` sets. -/
def Shape.ofCapacity (capacity : UInt32) : Shape :=
  ⟨capacity, capacity - 1⟩

/-- A shape of capacity `2 ^ log`, for which masking with `max_index_` is reduction modulo the
    capacity. -/
structure PowShape extends Shape where
  log : ℕ
  log_le : log ≤ 31
  capacity_eq : capacity.toNat = 2 ^ log
  maxIndex_eq : maxIndex = capacity - 1

/-- The mutable members: the array and the two free-running counters. -/
structure Mem where
  dataArr : ℕ → UInt8
  readCount : UInt32
  writeCount : UInt32

namespace Mem

/-- `read_count_ += len` -/
def addRead (m : Mem) (len : UInt32) : Mem := { m with readCount := m.readCount + len }

/-- `write_count_ += len` -/
def addWrite (m : Mem) (len : UInt32) : Mem := { m with writeCount := m.writeCount + len }

/-- New contents for `data_arr_`. -/
def setData (m : Mem) (dataArr : ℕ → UInt8) : Mem := { m with dataArr := dataArr }

variable (m : Mem) (len : UInt32) (dataArr : ℕ → UInt8)

@[simp] theorem dataArr_addRead : (m.addRead len).dataArr = m.dataArr := rfl
@[simp] theorem readCount_addRead : (m.addRead len).readCount = m.readCount + len := rfl
@[simp] theorem writeCount_addRead : (m.addRead len).writeCount = m.writeCount := rfl
@[simp] theorem dataArr_addWrite : (m.addWrite len).dataArr = m.dataArr := rfl
@[simp] theorem readCount_addWrite : (m.addWrite len).readCount = m.readCount := rfl
@[simp] theorem writeCount_addWrite : (m.addWrite len).writeCount = m.writeCount + len := rfl
@[simp] theorem dataArr_setData : (m.setData dataArr).dataArr = dataArr := rfl
@[simp] theorem readCount_setData : (m.setData dataArr).readCount = m.readCount := rfl
@[simp] theorem writeCount_setData : (m.setData dataArr).writeCount = m.writeCount := rfl

@[simp] theorem setData_self : m.setData m.dataArr = m := rfl

@[simp] theorem setData_setData (dataArr' : ℕ → UInt8) :
    (m.setData dataArr).setData dataArr' = m.setData dataArr' := rfl

end Mem

/-- The atomic actions on a `RingBuffer`. -/
inductive Act where
  | loadReadCount
  | loadWriteCount
  /-- `read_count_ += len` -/
  | addReadCount (len : UInt32)
  /-- `write_count_ += len` -/
  | addWriteCount (len : UInt32)
  | loadByte (i : ℕ)
  | storeByte (i : ℕ) (b : UInt8)
  /-- `assert(p)` -/
  | assertion (p : Bool)

/-- The actions with their results. -/
def sig : Signature where
  Act := Act
  Res
    | .loadReadCount => UInt32
    | .loadWriteCount => UInt32
    | .loadByte _ => UInt8
    | _ => Unit

/-- The effect of one action. With `ndebug` the assertions are compiled out; without it a failing
    assertion aborts the process. -/
def exec (ndebug : Bool) : Exec sig Mem
  | .loadReadCount, m => some (m.readCount, m)
  | .loadWriteCount, m => some (m.writeCount, m)
  | .addReadCount len, m => some ((), m.addRead len)
  | .addWriteCount len, m => some ((), m.addWrite len)
  | .loadByte i, m => some (m.dataArr i, m)
  | .storeByte i b, m => some ((), m.setData (Function.update m.dataArr i b))
  | .assertion p, m => if ndebug || p then some ((), m) else none

/-! ## Single actions as programs -/

def loadReadCount : Prog sig UInt32 := act Act.loadReadCount ret

def loadWriteCount : Prog sig UInt32 := act Act.loadWriteCount ret

def addReadCount (len : UInt32) : Prog sig Unit := act (Act.addReadCount len) ret

def addWriteCount (len : UInt32) : Prog sig Unit := act (Act.addWriteCount len) ret

def loadByte (i : ℕ) : Prog sig UInt8 := act (Act.loadByte i) ret

def storeByte (i : ℕ) (b : UInt8) : Prog sig Unit := act (Act.storeByte i b) ret

def assertion (p : Bool) : Prog sig Unit := act (Act.assertion p) ret

section Run

variable {α : Type} {ndebug : Bool} {m : Mem}

@[simp] theorem run_loadReadCount (f : UInt32 → Prog sig α) :
    (loadReadCount >>= f).run (exec ndebug) m = (f m.readCount).run (exec ndebug) m := rfl

@[simp] theorem run_loadWriteCount (f : UInt32 → Prog sig α) :
    (loadWriteCount >>= f).run (exec ndebug) m = (f m.writeCount).run (exec ndebug) m := rfl

@[simp] theorem run_addReadCount (len : UInt32) :
    (addReadCount len).run (exec ndebug) m = some ((), m.addRead len) := rfl

@[simp] theorem run_addWriteCount (len : UInt32) :
    (addWriteCount len).run (exec ndebug) m = some ((), m.addWrite len) := rfl

@[simp] theorem run_loadByte (i : ℕ) (f : UInt8 → Prog sig α) :
    (loadByte i >>= f).run (exec ndebug) m = (f (m.dataArr i)).run (exec ndebug) m := rfl

@[simp] theorem run_storeByte (i : ℕ) (b : UInt8) (f : Unit → Prog sig α) :
    (storeByte i b >>= f).run (exec ndebug) m =
      (f ()).run (exec ndebug) (m.setData (Function.update m.dataArr i b)) := rfl

@[simp] theorem run_assertion (p : Bool) (f : Unit → Prog sig α) :
    (assertion p >>= f).run (exec ndebug) m =
      if ndebug || p then (f ()).run (exec ndebug) m else none := by
  cases ndebug <;> cases p <;> rfl

end Run

/-! ## Memory copies -/

/-- `memcpy` of the bytes `bs` to cell `i`. -/
def storeBytes (i : ℕ) : List UInt8 → Prog sig Unit
  | [] => ret ()
  | b :: bs => do
    storeByte i b
    storeBytes (i + 1) bs

/-- `memcpy` of `n` bytes from cell `i`. -/
def loadBytes (i : ℕ) : ℕ → Prog sig (List UInt8)
  | 0 => ret []
  | n + 1 => do
    let b ← loadByte i
    let bs ← loadBytes (i + 1) n
    ret (b :: bs)

/-- A buffer of `len` bytes as `WriteContent` receives it. -/
structure Block where
  bytes : List UInt8
  len : UInt32
  length_eq : bytes.length = len.toNat

/-! ## Member functions -/

section Functions

variable (sh : Shape)

/-- `RingBuffer::IsEmpty`. -/
def isEmpty : Prog sig Bool := do
  let readCount ← loadReadCount
  let writeCount ← loadWriteCount
  ret (readCount == writeCount)

/-- `RingBuffer::DataHead`. -/
def dataHead : ℕ := 0

/-- `RingBuffer::AvailableRead`. -/
def availableRead : Prog sig UInt32 := do
  let writeCount ← loadWriteCount
  let readCount ← loadReadCount
  let availableRead := writeCount - readCount
  assertion (availableRead < sh.capacity)
  ret availableRead

/-- `RingBuffer::AvailableSeriesRead`. -/
def availableSeriesRead : Prog sig UInt32 := do
  let readCount ← loadReadCount
  let writeCount ← loadWriteCount
  let availableRead := writeCount - readCount
  assertion (sh.capacity ≥ availableRead)
  if availableRead = 0 then
    ret 0
  else
    let readIndex := readCount &&& sh.maxIndex
    if readIndex + availableRead ≤ sh.capacity then
      ret availableRead
    else
      ret (sh.capacity - readIndex)

/-- `RingBuffer::CurrentSeriesReadHead`. -/
def currentSeriesReadHead : Prog sig ℕ := do
  let readCount ← loadReadCount
  ret (readCount &&& sh.maxIndex).toNat

/-- `RingBuffer::ConsumeSeriesReadLen`. -/
def consumeSeriesReadLen (len : UInt32) : Prog sig Unit := do
  let readCount ← loadReadCount
  let readIndex := readCount &&& sh.maxIndex
  assertion (readIndex + len ≤ sh.capacity)
  addReadCount len

/-- `RingBuffer::WriteContent`. -/
def writeContent (content : List UInt8) (len : UInt32) : Prog sig Bool := do
  let writeCount ← loadWriteCount
  let readCount ← loadReadCount
  let contentSize := writeCount - readCount
  assertion (sh.capacity ≥ contentSize)
  let availableSize := sh.capacity - contentSize
  if availableSize < len then
    ret false
  else
    let writeIndex := writeCount &&& sh.maxIndex
    if writeIndex + len ≤ sh.capacity then
      storeBytes writeIndex.toNat (content.take len.toNat)
    else
      let tailLeft := sh.capacity - writeIndex
      storeBytes writeIndex.toNat (content.take tailLeft.toNat)
      storeBytes 0 ((content.drop tailLeft.toNat).take (len - tailLeft).toNat)
    addWriteCount len
    ret true

/-- `RingBuffer::AvailableWrite`. -/
def availableWrite : Prog sig UInt32 := do
  let writeCount ← loadWriteCount
  let readCount ← loadReadCount
  let contentSize := writeCount - readCount
  assertion (sh.capacity ≥ contentSize)
  ret (sh.capacity - contentSize)

/-- `RingBuffer::CurrentSeriesWriteHead`. -/
def currentSeriesWriteHead : Prog sig ℕ := do
  let writeCount ← loadWriteCount
  ret (writeCount &&& sh.maxIndex).toNat

/-- `RingBuffer::AvailableSeriesWrite`. -/
def availableSeriesWrite : Prog sig UInt32 := do
  let readCount ← loadReadCount
  let writeCount ← loadWriteCount
  let contentSize := writeCount - readCount
  assertion (sh.capacity ≥ contentSize)
  let availableWrite := sh.capacity - contentSize
  let writeIndex := writeCount &&& sh.maxIndex
  if writeIndex + availableWrite > sh.capacity then
    ret (sh.capacity - writeIndex)
  else
    ret availableWrite

/-- `RingBuffer::ConsumeSeriesWriteLen`. -/
def consumeSeriesWriteLen (len : UInt32) : Prog sig Unit := do
  let writeCount ← loadWriteCount
  let writeIndex := writeCount &&& sh.maxIndex
  assertion (writeIndex + len ≤ sh.capacity)
  addWriteCount len

end Functions

end ReechatBase.RingBuffer
