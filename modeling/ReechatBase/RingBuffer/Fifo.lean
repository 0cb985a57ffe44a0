import ReechatBase.RingBuffer.Counters
import ReechatBase.Lib.BoundedFifo

/-!
# RingBuffer refines a bounded FIFO

Run alone, every member function of `RingBuffer` is described by the abstract content
`Mem.content`: the bytes published and not yet consumed. The operations a single thread can
perform on the ring are the steps of a bounded FIFO queue, across any number of wraps of the
array index and of the two counters.
-/

namespace ReechatBase.RingBuffer

open Lib Lib.Prog Lib.Cyclic

variable {sh : PowShape} {ndebug : Bool} {m : Mem}

/-! ## Memory copies -/

@[simp] theorem run_storeBytes (i : ℕ) (bs : List UInt8) (m : Mem) :
    (storeBytes i bs).run (exec ndebug) m =
      some ((), m.setData (storeAt m.dataArr i bs)) := by
  induction bs generalizing i m with
  | nil => simp [storeBytes]
  | cons b bs ih => simp [storeBytes, ih, storeAt_cons]

@[simp] theorem run_loadBytes (i n : ℕ) (m : Mem) :
    (loadBytes i n).run (exec ndebug) m = some (span m.dataArr i n, m) := by
  induction n generalizing i with
  | zero => rfl
  | succ n ih => simp [loadBytes, run_bind_of_eq (ih _), span_succ]

/-! ## Reading -/

theorem run_availableRead (m : Mem) :
    (availableRead sh.toShape).run (exec ndebug) m =
      if ndebug || m.size < sh.cap then some (m.writeCount - m.readCount, m) else none := by
  have hassert : decide (m.writeCount - m.readCount < sh.capacity) = decide (m.size < sh.cap) :=
    decide_eq_decide.mpr (by rw [UInt32.lt_iff_toNat_lt, sh.capacity_toNat, Mem.size])
  simp only [availableRead, run_loadWriteCount, run_loadReadCount, run_assertion, hassert, run_ret]

theorem run_availableSeriesRead (hm : m.size ≤ sh.cap) :
    ∃ n : UInt32, (availableSeriesRead sh.toShape).run (exec ndebug) m = some (n, m) ∧
      n.toNat = seriesLen sh.cap (m.readCount.toNat % sh.cap) m.size := by
  have hassert : sh.capacity ≥ m.writeCount - m.readCount := sh.le_capacity.mpr hm
  refine ⟨_, ?_, seriesReadLen_toNat sh hm⟩
  simp [availableSeriesRead_eq, hassert]

@[simp] theorem run_currentSeriesReadHead (m : Mem) :
    (currentSeriesReadHead sh.toShape).run (exec ndebug) m =
      some (m.readCount.toNat % sh.cap, m) := by
  simp [currentSeriesReadHead]

/-- The span at the read head is the front of the content. -/
theorem span_readHead {n : ℕ} (hn : n ≤ seriesLen sh.cap (m.readCount.toNat % sh.cap) m.size) :
    span m.dataArr (m.readCount.toNat % sh.cap) n = (m.content sh).take n := by
  have hlt := sh.mask_lt m.readCount
  simp only [seriesLen] at hn
  rw [Mem.content, take_window _ _ _ (by omega), window_eq_span (by omega)]

theorem run_consumeSeriesReadLen {n : UInt32}
    (hn : n.toNat ≤ seriesLen sh.cap (m.readCount.toNat % sh.cap) m.size) :
    (consumeSeriesReadLen sh.toShape n).run (exec ndebug) m =
      some ((), m.addRead n) := by
  have hlt := sh.mask_lt m.readCount
  simp only [seriesLen] at hn
  have hassert : (m.readCount &&& sh.maxIndex) + n ≤ sh.capacity := by
    rw [sh.le_capacity, sh.mask_add_toNat _ (by omega)]
    omega
  simp [consumeSeriesReadLen, hassert]

/-! ## Writing -/

theorem run_availableWrite (hm : m.size ≤ sh.cap) :
    ∃ n : UInt32, (availableWrite sh.toShape).run (exec ndebug) m = some (n, m) ∧
      n.toNat = sh.cap - m.size := by
  have hassert : sh.capacity ≥ m.writeCount - m.readCount := sh.le_capacity.mpr hm
  refine ⟨sh.capacity - (m.writeCount - m.readCount), ?_, capacity_sub_size_toNat sh hm⟩
  simp [availableWrite, hassert]

theorem run_availableSeriesWrite (hm : m.size ≤ sh.cap) :
    ∃ n : UInt32, (availableSeriesWrite sh.toShape).run (exec ndebug) m = some (n, m) ∧
      n.toNat = seriesLen sh.cap (m.writeCount.toNat % sh.cap) (sh.cap - m.size) := by
  have hassert : sh.capacity ≥ m.writeCount - m.readCount := sh.le_capacity.mpr hm
  refine ⟨_, ?_, seriesWriteLen_toNat sh hm⟩
  simp [availableSeriesWrite_eq, hassert]

@[simp] theorem run_currentSeriesWriteHead (m : Mem) :
    (currentSeriesWriteHead sh.toShape).run (exec ndebug) m =
      some (m.writeCount.toNat % sh.cap, m) := by
  simp [currentSeriesWriteHead]

theorem run_consumeSeriesWriteLen {n : UInt32}
    (hn : n.toNat ≤ seriesLen sh.cap (m.writeCount.toNat % sh.cap) (sh.cap - m.size)) :
    (consumeSeriesWriteLen sh.toShape n).run (exec ndebug) m =
      some ((), m.addWrite n) := by
  have hlt := sh.mask_lt m.writeCount
  simp only [seriesLen] at hn
  have hassert : (m.writeCount &&& sh.maxIndex) + n ≤ sh.capacity := by
    rw [sh.le_capacity, sh.mask_add_toNat _ (by omega)]
    omega
  simp [consumeSeriesWriteLen, hassert]

/-- The two `memcpy` calls of `WriteContent` store the block behind the content. -/
theorem run_writeContent_copy (hm : m.size ≤ sh.cap) (b : Block)
    (hfit : m.size + b.len.toNat ≤ sh.cap) :
    (writeContent sh.toShape b.bytes b.len).run (exec ndebug) m =
      some (true,
        (m.setData (store m.dataArr sh.cap m.writeCount.toNat b.bytes)).addWrite b.len) := by
  have hassert : sh.capacity ≥ m.writeCount - m.readCount := sh.le_capacity.mpr hm
  have hfree := capacity_sub_size_toNat sh (x := m.writeCount - m.readCount) hm
  have hroom : ¬ sh.capacity - (m.writeCount - m.readCount) < b.len := by
    rw [UInt32.lt_iff_toNat_lt, hfree]
    simp only [Mem.size] at hfit
    omega
  have hlt := sh.mask_lt m.writeCount
  simp only [writeContent, run_loadWriteCount, run_loadReadCount, run_assertion, hassert,
    decide_true, Bool.or_true, if_true, hroom, if_false]
  split
  · next hcase =>
    -- the block fits before the end of the array
    rw [sh.le_capacity, sh.mask_add_toNat _ (by omega)] at hcase
    rw [run_bind_of_eq (run_storeBytes _ _ _), run_bind_of_eq (run_addWriteCount _), run_ret,
      sh.mask_toNat, List.take_of_length_le (by rw [b.length_eq]), store,
      if_pos (by rw [b.length_eq]; exact hcase)]
  · next hcase =>
    -- the block is cut at the end of the array
    rw [sh.le_capacity, sh.mask_add_toNat _ (by omega)] at hcase
    have htail := sh.capacity_sub_mask_toNat m.writeCount
    have hrest : (b.len - (sh.capacity - (m.writeCount &&& sh.maxIndex))).toNat =
        b.len.toNat - (sh.cap - m.writeCount.toNat % sh.cap) := by
      rw [UInt32.toNat_sub_of_le _ _ (by rw [UInt32.le_iff_toNat_le, htail]; omega), htail]
    have hdrop : (b.bytes.drop (sh.cap - m.writeCount.toNat % sh.cap)).length =
        b.len.toNat - (sh.cap - m.writeCount.toNat % sh.cap) := by
      rw [List.length_drop, b.length_eq]
    rw [run_bind_of_eq (run_storeBytes _ _ _), run_bind_of_eq (run_storeBytes _ _ _),
      run_bind_of_eq (run_addWriteCount _), run_ret, hrest, htail, sh.mask_toNat, ← hdrop,
      List.take_length, store, if_neg (by rw [b.length_eq]; exact hcase), Mem.dataArr_setData,
      Mem.setData_setData]

theorem run_writeContent_full (hm : m.size ≤ sh.cap) (b : Block)
    (hfull : sh.cap < m.size + b.len.toNat) :
    (writeContent sh.toShape b.bytes b.len).run (exec ndebug) m = some (false, m) := by
  have hassert : sh.capacity ≥ m.writeCount - m.readCount := sh.le_capacity.mpr hm
  have hfree := capacity_sub_size_toNat sh (x := m.writeCount - m.readCount) hm
  have hroom : sh.capacity - (m.writeCount - m.readCount) < b.len := by
    rw [UInt32.lt_iff_toNat_lt, hfree]
    simp only [Mem.size] at *
    omega
  simp [writeContent, hassert, hroom]

/-! ## The operations of a single thread -/

/-- A ring whose unread bytes fit into the array: the two counters may stand anywhere as long
    as their difference modulo `2 ^ 32` is at most the capacity. -/
structure Ring (sh : PowShape) where
  mem : Mem
  size_le : mem.size ≤ sh.cap

/-- The bytes in the ring. -/
def Ring.content (r : Ring sh) : List UInt8 := r.mem.content sh

theorem Ring.length_content_le (r : Ring sh) : r.content.length ≤ sh.cap := by
  rw [Ring.content, Mem.length_content]
  exact r.size_le

/-- The four ways of moving bytes through the ring. -/
inductive Op where
  /-- `WriteContent` -/
  | write (b : Block)
  /-- Fill bytes at `CurrentSeriesWriteHead()` and call `ConsumeSeriesWriteLen` -/
  | fill (b : Block)
  /-- Copy `n` bytes from `CurrentSeriesReadHead()` and call `ConsumeSeriesReadLen(n)` -/
  | consume (n : UInt32)

/-- An operation as its caller performs it. `fill` and `consume` ask first how long the
    contiguous span is and leave the ring alone when it is too short. -/
def Op.prog (sh : Shape) : Op → Prog sig (BoundedFifo.Event UInt8)
  | .write b => do
    let ok ← writeContent sh b.bytes b.len
    ret ⟨if ok then b.bytes else [], []⟩
  | .fill b => do
    let available ← availableSeriesWrite sh
    if b.len ≤ available then
      let head ← currentSeriesWriteHead sh
      storeBytes head b.bytes
      consumeSeriesWriteLen sh b.len
      ret ⟨b.bytes, []⟩
    else
      ret ⟨[], []⟩
  | .consume n => do
    let available ← availableSeriesRead sh
    if n ≤ available then
      let head ← currentSeriesReadHead sh
      let bytes ← loadBytes head n.toNat
      consumeSeriesReadLen sh n
      ret ⟨[], bytes⟩
    else
      ret ⟨[], []⟩

/-- A caller that performs one operation after the other. -/
def client (sh : Shape) : List Op → Prog sig (List (BoundedFifo.Event UInt8))
  | [] => ret []
  | op :: ops => do
    let e ← op.prog sh
    let es ← client sh ops
    ret (e :: es)

/-- Performed on `r`, the operation does not abort and is a step of the queue. -/
def Op.Refines (ndebug : Bool) (op : Op) (r : Ring sh) : Prop :=
  ∃ (e : BoundedFifo.Event UInt8) (r' : Ring sh),
    (op.prog sh.toShape).run (exec ndebug) r.mem = some (e, r'.mem) ∧
      BoundedFifo.Step sh.cap r.content e r'.content

/-- An operation that is refused is a step that moves nothing. -/
theorem Ring.step_refl (r : Ring sh) :
    BoundedFifo.Step sh.cap r.content ⟨[], []⟩ r.content :=
  ⟨by simp, r.length_content_le⟩

/-- Publishing a block that has been stored behind the content. -/
theorem Ring.step_publish (r : Ring sh) (b : Block) (hfit : r.mem.size + b.len.toNat ≤ sh.cap) :
    ∃ r' : Ring sh, r'.mem =
        (r.mem.setData (store r.mem.dataArr sh.cap r.mem.writeCount.toNat b.bytes)).addWrite b.len ∧
      BoundedFifo.Step sh.cap r.content ⟨b.bytes, []⟩ r'.content := by
  have hcontent := r.mem.content_publish sh b.length_eq hfit
  have hsize := congrArg List.length hcontent
  simp only [Mem.length_content, List.length_append, b.length_eq] at hsize
  refine ⟨⟨(r.mem.setData (store r.mem.dataArr sh.cap r.mem.writeCount.toNat b.bytes)).addWrite
    b.len, by rw [hsize]; exact hfit⟩, rfl, ?_, ?_⟩
  · simp [Ring.content, hcontent]
  · simpa [Ring.content, hsize] using hfit

/-- Consuming a front part of the content. -/
theorem Ring.step_retire (r : Ring sh) {n : UInt32} (hn : n.toNat ≤ r.mem.size) :
    ∃ r' : Ring sh, r'.mem = r.mem.addRead n ∧
      BoundedFifo.Step sh.cap r.content ⟨[], r.content.take n.toNat⟩ r'.content := by
  have hcontent := r.mem.content_addRead sh hn
  have hsize := congrArg List.length hcontent
  have hbound := r.size_le
  simp only [Mem.length_content, List.length_drop] at hsize
  refine ⟨⟨r.mem.addRead n, by rw [hsize]; omega⟩, rfl, ?_, ?_⟩
  · simp [Ring.content, hcontent]
  · simp only [Ring.content, Mem.length_content, hsize]
    omega

theorem Op.refines_write (r : Ring sh) (b : Block) : (Op.write b).Refines ndebug r := by
  rcases Nat.lt_or_ge sh.cap (r.mem.size + b.len.toNat) with hfull | hfit
  · refine ⟨_, r, ?_, r.step_refl⟩
    simp [Op.prog, run_bind_of_eq (run_writeContent_full r.size_le b hfull)]
  · obtain ⟨r', hr', hstep⟩ := r.step_publish b hfit
    refine ⟨_, r', ?_, hstep⟩
    rw [hr']
    simp [Op.prog, run_bind_of_eq (run_writeContent_copy r.size_le b hfit)]

theorem Op.refines_fill (r : Ring sh) (b : Block) : (Op.fill b).Refines ndebug r := by
  obtain ⟨available, hrun, havail⟩ := @run_availableSeriesWrite sh ndebug r.mem r.size_le
  simp only [Op.Refines, Op.prog, run_bind_of_eq hrun]
  split
  · next hle =>
    rw [UInt32.le_iff_toNat_le, havail] at hle
    have hspan := hle
    have hlt := sh.mask_lt r.mem.writeCount
    have hsize := r.size_le
    simp only [seriesLen] at hspan
    obtain ⟨r', hr', hstep⟩ := r.step_publish b (by omega)
    -- the span lies in one piece, so one copy stores the block
    rw [store, if_pos (by rw [b.length_eq]; omega)] at hr'
    have hconsume := @run_consumeSeriesWriteLen sh ndebug
      (r.mem.setData (storeAt r.mem.dataArr (r.mem.writeCount.toNat % sh.cap) b.bytes))
      b.len hle
    refine ⟨_, r', ?_, hstep⟩
    rw [run_bind_of_eq (run_currentSeriesWriteHead _), run_bind_of_eq (run_storeBytes _ _ _),
      run_bind_of_eq hconsume, run_ret, hr']
  · exact ⟨_, r, rfl, r.step_refl⟩

theorem Op.refines_consume (r : Ring sh) (n : UInt32) : (Op.consume n).Refines ndebug r := by
  obtain ⟨available, hrun, havail⟩ := @run_availableSeriesRead sh ndebug r.mem r.size_le
  simp only [Op.Refines, Op.prog, run_bind_of_eq hrun]
  split
  · next hle =>
    rw [UInt32.le_iff_toNat_le, havail] at hle
    -- the bytes copied are the front of the content
    obtain ⟨r', hr', hstep⟩ := r.step_retire (hle.trans (Nat.min_le_left _ _))
    refine ⟨_, r', ?_, hstep⟩
    rw [run_bind_of_eq (run_currentSeriesReadHead _), run_bind_of_eq (run_loadBytes _ _ _),
      run_bind_of_eq (run_consumeSeriesReadLen hle), run_ret, hr', span_readHead hle, Ring.content]
  · exact ⟨_, r, rfl, r.step_refl⟩

/-- One operation is one step of the queue. -/
theorem Op.refines (r : Ring sh) (op : Op) : op.Refines ndebug r := by
  cases op with
  | write b => exact Op.refines_write r b
  | fill b => exact Op.refines_fill r b
  | consume n => exact Op.refines_consume r n

/-- A sequence of operations is a run of the queue. -/
theorem Ring.steps (r : Ring sh) (ops : List Op) :
    ∃ (es : List (BoundedFifo.Event UInt8)) (r' : Ring sh),
      (client sh.toShape ops).run (exec ndebug) r.mem = some (es, r'.mem) ∧
        BoundedFifo.Steps sh.cap r.content es r'.content := by
  induction ops generalizing r with
  | nil => exact ⟨[], r, rfl, .nil _⟩
  | cons op ops ih =>
    obtain ⟨e, r₁, hrun, hstep⟩ : op.Refines ndebug r := Op.refines r op
    obtain ⟨es, r', hrest, hsteps⟩ := ih r₁
    refine ⟨e :: es, r', ?_, .cons hstep hsteps⟩
    simp [client, run_bind_of_eq hrun, run_bind_of_eq hrest]

/-! ## What the ring answers -/

/-- The answers of the query functions and of `WriteContent` on a ring with known content. -/
structure Ring.Answers (ndebug : Bool) (r : Ring sh) : Prop where
  availableWrite : ∃ n : UInt32,
    (availableWrite sh.toShape).run (exec ndebug) r.mem = some (n, r.mem) ∧
      n.toNat = sh.cap - r.content.length
  /-- The read span stays within the array, holds the front of the content, and is empty only
      when the ring is. -/
  readSpan : ∃ (n : UInt32) (i : ℕ),
    (availableSeriesRead sh.toShape).run (exec ndebug) r.mem = some (n, r.mem) ∧
      (currentSeriesReadHead sh.toShape).run (exec ndebug) r.mem = some (i, r.mem) ∧
      i + n.toNat ≤ sh.cap ∧ span r.mem.dataArr i n.toNat = r.content.take n.toNat ∧
      (n.toNat = 0 ↔ r.content = [])
  /-- The write span stays within the array and the free space, and is empty only when the ring
      is full. -/
  writeSpan : ∃ (n : UInt32) (i : ℕ),
    (availableSeriesWrite sh.toShape).run (exec ndebug) r.mem = some (n, r.mem) ∧
      (currentSeriesWriteHead sh.toShape).run (exec ndebug) r.mem = some (i, r.mem) ∧
      i + n.toNat ≤ sh.cap ∧ r.content.length + n.toNat ≤ sh.cap ∧
      (n.toNat = 0 ↔ r.content.length = sh.cap)
  /-- `WriteContent` succeeds exactly when the block fits, and changes nothing otherwise. -/
  writeContent : ∀ b : Block, ∃ (ok : Bool) (m : Mem),
    (writeContent sh.toShape b.bytes b.len).run (exec ndebug) r.mem = some (ok, m) ∧
      (ok = true ↔ r.content.length + b.len.toNat ≤ sh.cap) ∧ (ok = false → m = r.mem)
  /-- The sum `write_index + len` that `WriteContent` computes does not overflow, nor does the
      difference `len - tail_left` underflow. -/
  indexArithmetic : ∀ b : Block, r.content.length + b.len.toNat ≤ sh.cap →
    (r.mem.writeCount &&& sh.maxIndex).toNat + b.len.toNat < 2 ^ 32 ∧
      (sh.capacity < (r.mem.writeCount &&& sh.maxIndex) + b.len →
        sh.capacity - (r.mem.writeCount &&& sh.maxIndex) ≤ b.len)

theorem Ring.answers_readSpan (r : Ring sh) : ∃ (n : UInt32) (i : ℕ),
    (availableSeriesRead sh.toShape).run (exec ndebug) r.mem = some (n, r.mem) ∧
      (currentSeriesReadHead sh.toShape).run (exec ndebug) r.mem = some (i, r.mem) ∧
      i + n.toNat ≤ sh.cap ∧ span r.mem.dataArr i n.toNat = r.content.take n.toNat ∧
      (n.toNat = 0 ↔ r.content = []) := by
  obtain ⟨n, hrun, hn⟩ := @run_availableSeriesRead sh ndebug r.mem r.size_le
  refine ⟨n, _, hrun, run_currentSeriesReadHead _, ?_, span_readHead hn.le, ?_⟩
  · rw [hn, seriesLen]
    have hlt := sh.mask_lt r.mem.readCount
    omega
  · rw [← List.length_eq_zero_iff, Ring.content, Mem.length_content, hn, seriesLen]
    have hlt := sh.mask_lt r.mem.readCount
    omega

theorem Ring.answers_writeSpan (r : Ring sh) : ∃ (n : UInt32) (i : ℕ),
    (availableSeriesWrite sh.toShape).run (exec ndebug) r.mem = some (n, r.mem) ∧
      (currentSeriesWriteHead sh.toShape).run (exec ndebug) r.mem = some (i, r.mem) ∧
      i + n.toNat ≤ sh.cap ∧ r.content.length + n.toNat ≤ sh.cap ∧
      (n.toNat = 0 ↔ r.content.length = sh.cap) := by
  obtain ⟨n, hrun, hn⟩ := @run_availableSeriesWrite sh ndebug r.mem r.size_le
  have hlt := sh.mask_lt r.mem.writeCount
  have hsize := r.size_le
  refine ⟨n, _, hrun, run_currentSeriesWriteHead _, ?_⟩
  rw [Ring.content, Mem.length_content, hn, seriesLen]
  omega

theorem Ring.answers_writeContent (r : Ring sh) (b : Block) : ∃ (ok : Bool) (m : Mem),
    (RingBuffer.writeContent sh.toShape b.bytes b.len).run (exec ndebug) r.mem = some (ok, m) ∧
      (ok = true ↔ r.content.length + b.len.toNat ≤ sh.cap) ∧ (ok = false → m = r.mem) := by
  rw [Ring.content, Mem.length_content]
  rcases Nat.lt_or_ge sh.cap (r.mem.size + b.len.toNat) with hfull | hfit
  · refine ⟨false, r.mem, run_writeContent_full r.size_le b hfull, ?_, fun _ => rfl⟩
    simpa using hfull
  · exact ⟨true, _, run_writeContent_copy r.size_le b hfit, by simpa using hfit, by simp⟩

theorem Ring.answers_indexArithmetic (r : Ring sh) (b : Block)
    (hfit : r.content.length + b.len.toNat ≤ sh.cap) :
    (r.mem.writeCount &&& sh.maxIndex).toNat + b.len.toNat < 2 ^ 32 ∧
      (sh.capacity < (r.mem.writeCount &&& sh.maxIndex) + b.len →
        sh.capacity - (r.mem.writeCount &&& sh.maxIndex) ≤ b.len) := by
  have hlt := sh.mask_lt r.mem.writeCount
  have hle := sh.cap_le
  constructor
  · rw [sh.mask_toNat]
    omega
  · intro hwrap
    rw [UInt32.lt_iff_toNat_lt, sh.capacity_toNat, sh.mask_add_toNat _ (by omega)] at hwrap
    rw [UInt32.le_iff_toNat_le, sh.capacity_sub_mask_toNat]
    omega

theorem Ring.answers (r : Ring sh) : r.Answers ndebug where
  availableWrite := by
    rw [Ring.content, Mem.length_content]
    exact run_availableWrite r.size_le
  readSpan := r.answers_readSpan
  writeSpan := r.answers_writeSpan
  writeContent := r.answers_writeContent
  indexArithmetic := r.answers_indexArithmetic

/-- **RingBuffer is a bounded FIFO queue of bytes.** From every pair of counters whose
    difference is at most the capacity, every sequence of operations runs without aborting, is
    a run of the queue, delivers the bytes accepted in order and without loss, and leaves a ring
    that answers every query by its content. -/
theorem ring_refines_boundedFifo (sh : PowShape) (ndebug : Bool) (r : Ring sh) (ops : List Op) :
    ∃ (es : List (BoundedFifo.Event UInt8)) (r' : Ring sh),
      (client sh.toShape ops).run (exec ndebug) r.mem = some (es, r'.mem) ∧
        BoundedFifo.Steps sh.cap r.content es r'.content ∧
        r.content ++ BoundedFifo.accepted es = BoundedFifo.delivered es ++ r'.content ∧
        (r'.mem.writeCount - r'.mem.readCount).toNat ≤ sh.cap ∧ r'.Answers ndebug := by
  obtain ⟨es, r', hrun, hsteps⟩ := @Ring.steps sh ndebug r ops
  exact ⟨es, r', hrun, hsteps, hsteps.conservation, r'.size_le, r'.answers⟩

end ReechatBase.RingBuffer
