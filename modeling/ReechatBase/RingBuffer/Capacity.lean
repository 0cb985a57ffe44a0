import ReechatBase.RingBuffer.Fifo
import Mathlib.Data.Nat.Bitwise

/-!
# The capacities that work

The constructor of `RingBuffer` takes any capacity, and masking a counter with `max_index_` is
reduction modulo the capacity only for powers of two. For any other capacity some bit of
`max_index_` below its highest one is clear, so that a counter with that bit alone has index 0:
a byte written there covers the first byte, while that is still unread.

Main result: `isFifo_iff_capacity`, for a ring that starts as the constructor leaves it.
-/

namespace ReechatBase.RingBuffer

open Lib Lib.Prog Lib.Cyclic

variable {ndebug : Bool}

/-- The ring is a bounded FIFO queue: whatever the array held, a caller that performs any
    operations on the new ring is not aborted, and sees a run of the queue. -/
def Shape.IsFifo (sh : Shape) (ndebug : Bool) : Prop :=
  ∀ (dataArr : ℕ → UInt8) (ops : List Op),
    ∃ (es : List (BoundedFifo.Event UInt8)) (m : Mem) (q : List UInt8),
      (client sh ops).run (exec ndebug) ⟨dataArr, 0, 0⟩ = some (es, m) ∧
        BoundedFifo.Steps sh.capacity.toNat [] es q

/-! ## Powers of two -/

/-- A power of two is a queue. -/
theorem PowShape.isFifo (sh : PowShape) : sh.toShape.IsFifo ndebug := by
  intro dataArr ops
  have hsize : (⟨dataArr, 0, 0⟩ : Mem).size = 0 := by simp [Mem.size]
  obtain ⟨es, r', hrun, hsteps⟩ := @Ring.steps sh ndebug
    ⟨⟨dataArr, 0, 0⟩, by rw [hsize]; exact Nat.zero_le _⟩ ops
  refine ⟨es, r'.mem, r'.content, hrun, ?_⟩
  have hempty : (⟨dataArr, 0, 0⟩ : Mem).content sh = [] := by
    apply List.length_eq_zero_iff.mp
    rw [Mem.length_content, hsize]
  rw [sh.capacity_toNat, ← hempty]
  exact hsteps

theorem run_client_cons {sh : Shape} {op : Op} {ops : List Op} {m m₁ m₂ : Mem}
    {e : BoundedFifo.Event UInt8} {es : List (BoundedFifo.Event UInt8)}
    (hop : (op.prog sh).run (exec ndebug) m = some (e, m₁))
    (hops : (client sh ops).run (exec ndebug) m₁ = some (es, m₂)) :
    (client sh (op :: ops)).run (exec ndebug) m = some (e :: es, m₂) := by
  simp [client, run_bind_of_eq hop, run_bind_of_eq hops]

/-! ## The front of the array -/

section Front

variable {sh : Shape} {dataArr : ℕ → UInt8} {writeCount : UInt32}

/-- A block that `WriteContent` stores from cell 0 on. -/
theorem run_write_front {b : Block} (hindex : writeCount &&& sh.maxIndex = 0)
    (hfit : writeCount.toNat + b.len.toNat ≤ sh.capacity.toNat) :
    ((Op.write b).prog sh).run (exec ndebug) ⟨dataArr, 0, writeCount⟩ =
      some (⟨b.bytes, []⟩, ⟨storeAt dataArr 0 b.bytes, 0, writeCount + b.len⟩) := by
  have hle : writeCount ≤ sh.capacity := UInt32.le_iff_toNat_le.mpr (by omega)
  have hroom : ¬ sh.capacity - writeCount < b.len := by
    rw [UInt32.lt_iff_toNat_lt, UInt32.toNat_sub_of_le _ _ hle]
    omega
  have hcase : 0 + b.len ≤ sh.capacity := by
    rw [UInt32.zero_add, UInt32.le_iff_toNat_le]
    omega
  have htake : b.bytes.take b.len.toNat = b.bytes := by rw [← b.length_eq, List.take_length]
  have hrun : (writeContent sh b.bytes b.len).run (exec ndebug) ⟨dataArr, 0, writeCount⟩ =
      some (true, ⟨storeAt dataArr 0 b.bytes, 0, writeCount + b.len⟩) := by
    simp only [writeContent, run_loadWriteCount, run_loadReadCount, run_assertion, UInt32.sub_zero,
      ge_iff_le, hle, decide_true, Bool.or_true, if_true, hroom, if_false, hindex, hcase, htake]
    rw [run_bind_of_eq (run_storeBytes _ _ _), run_bind_of_eq (run_addWriteCount _), run_ret]
    rfl
  simp [Op.prog, run_bind_of_eq hrun]

/-- A block for which there is no room. -/
theorem run_write_refused {b : Block} (hle : writeCount ≤ sh.capacity)
    (hroom : sh.capacity - writeCount < b.len) :
    ((Op.write b).prog sh).run (exec ndebug) ⟨dataArr, 0, writeCount⟩ =
      some (⟨[], []⟩, ⟨dataArr, 0, writeCount⟩) := by
  simp [Op.prog, writeContent, hle, hroom]

theorem run_availableSeriesRead_front (hle : writeCount ≤ sh.capacity) :
    (availableSeriesRead sh).run (exec ndebug) ⟨dataArr, 0, writeCount⟩ =
      some (writeCount, ⟨dataArr, 0, writeCount⟩) := by
  by_cases hzero : writeCount = 0 <;> simp [availableSeriesRead, hle, hzero]

/-- The first bytes of a ring from which nothing was read. -/
theorem run_consume_front {n : UInt32} (hle : writeCount ≤ sh.capacity) :
    ((Op.consume n).prog sh).run (exec ndebug) ⟨dataArr, 0, writeCount⟩ =
      if n ≤ writeCount then some (⟨[], span dataArr 0 n.toNat⟩, ⟨dataArr, n, writeCount⟩)
      else some (⟨[], []⟩, ⟨dataArr, 0, writeCount⟩) := by
  simp only [Op.prog, run_bind_of_eq (run_availableSeriesRead_front hle)]
  split
  · next hn =>
    have hconsume : (consumeSeriesReadLen sh n).run (exec ndebug) ⟨dataArr, 0, writeCount⟩ =
        some ((), ⟨dataArr, n, writeCount⟩) := by
      simp [consumeSeriesReadLen, UInt32.le_trans hn hle, Mem.addRead]
    have hhead : (currentSeriesReadHead sh).run (exec ndebug) ⟨dataArr, 0, writeCount⟩ =
        some (0, ⟨dataArr, 0, writeCount⟩) := by
      simp [currentSeriesReadHead]
    rw [run_bind_of_eq hhead, run_bind_of_eq (run_loadBytes _ _ _), run_bind_of_eq hconsume,
      run_ret]
  · rfl

end Front

/-! ## No capacity at all -/

theorem Block.bytes_eq_nil {b : Block} (h : b.len = 0) : b.bytes = [] := by
  apply List.length_eq_zero_iff.mp
  rw [b.length_eq, h, UInt32.toNat_zero]

/-- A ring of capacity 0 moves nothing, and `max_index_` is never used. -/
theorem run_op_zero {sh : Shape} (hcap : sh.capacity = 0) (op : Op) (dataArr : ℕ → UInt8) :
    (op.prog sh).run (exec ndebug) ⟨dataArr, 0, 0⟩ = some (⟨[], []⟩, ⟨dataArr, 0, 0⟩) := by
  have hle : 0 ≤ sh.capacity := by simp
  cases op with
  | write b =>
    by_cases hlen : b.len = 0
    · rw [run_write_front (by simp) (by simp [hlen]), Block.bytes_eq_nil hlen, hlen, storeAt_nil,
        UInt32.zero_add]
    · apply run_write_refused hle
      rw [hcap, UInt32.sub_zero]
      exact UInt32.pos_iff_ne_zero.mpr hlen
  | fill b =>
    by_cases hlen : b.len = 0
    · simp [Op.prog, availableSeriesWrite, currentSeriesWriteHead, consumeSeriesWriteLen, hcap,
        hlen, Block.bytes_eq_nil hlen, storeBytes, run_bind_of_eq (run_addWriteCount _),
        Mem.addWrite]
    · simp [Op.prog, availableSeriesWrite, hcap, hlen]
  | consume n =>
    rw [run_consume_front hle]
    split
    · next hn => rw [UInt32.le_zero_iff.mp hn, UInt32.toNat_zero, span_zero]
    · rfl

theorem isFifo_zero {sh : Shape} (hcap : sh.capacity = 0) : sh.IsFifo ndebug := by
  intro dataArr ops
  induction ops with
  | nil => exact ⟨[], _, [], rfl, .nil _⟩
  | cons op ops ih =>
    obtain ⟨es, m, q, hrun, hsteps⟩ := ih
    exact ⟨⟨[], []⟩ :: es, m, q, run_client_cons (run_op_zero hcap op dataArr) hrun,
      .cons ⟨rfl, Nat.zero_le _⟩ hsteps⟩

/-! ## The other capacities -/

/-- Of the numbers below a number that is not a power of two, the largest has a clear bit below
    its highest one. -/
theorem exists_clear_bit (n : ℕ) :
    n = 0 ∨ (∃ k, n = 2 ^ k) ∨ ∃ k, 2 ^ k < n ∧ (n - 1).testBit k = false := by
  induction n using Nat.strongRecOn with
  | ind n ih =>
    obtain ⟨m, rfl | rfl⟩ : ∃ m, n = 2 * m ∨ n = 2 * m + 1 := ⟨n / 2, by omega⟩
    · rcases Nat.eq_zero_or_pos m with rfl | hpos
      · exact .inl rfl
      -- the bits of `2 * m - 1` above the lowest are those of `m - 1`
      rcases ih m (by omega) with rfl | ⟨k, rfl⟩ | ⟨k, hk, hbit⟩
      · exact .inl rfl
      · exact .inr (.inl ⟨k + 1, by rw [Nat.pow_succ, Nat.mul_comm]⟩)
      · refine .inr (.inr ⟨k + 1, by rw [Nat.pow_succ]; omega, ?_⟩)
        rw [Nat.testBit_succ, show (2 * m - 1) / 2 = m - 1 by omega]
        exact hbit
    · rcases Nat.eq_zero_or_pos m with rfl | hpos
      · exact .inr (.inl ⟨0, rfl⟩)
      · refine .inr (.inr ⟨0, by rw [Nat.pow_zero]; omega, ?_⟩)
        -- `2 * m` is even
        rw [Nat.testBit_zero, decide_eq_false_iff_not]
        omega

/-- A block of `2 ^ k` zeros and the byte 1 behind it are both stored from cell 0 on, if that bit of
    `max_index_` is clear. The first byte read is then 1. -/
theorem run_clash {sh : Shape} {k : ℕ} (hk : 2 ^ k < sh.capacity.toNat)
    (hbit : sh.maxIndex.toNat.testBit k = false) : ∃ (zeros one : Block) (m : Mem),
      zeros.bytes = List.replicate (2 ^ k) 0 ∧
        (client sh [.write zeros, .write one, .consume 1]).run (exec ndebug) ⟨fun _ => 0, 0, 0⟩ =
          some ([⟨zeros.bytes, []⟩, ⟨one.bytes, []⟩, ⟨[], [1]⟩], m) := by
  have hlen : (UInt32.ofNat (2 ^ k)).toNat = 2 ^ k :=
    UInt32.toNat_ofNat_of_lt' (hk.trans sh.capacity.toNat_lt)
  have hone : (UInt32.ofNat (2 ^ k) + 1).toNat = 2 ^ k + 1 := by
    rw [UInt32.toNat_add, hlen, UInt32.toNat_one, Nat.mod_eq_of_lt]
    exact Nat.lt_of_le_of_lt hk sh.capacity.toNat_lt
  -- the bit that `max_index_` lacks is the only one of the counter, so the index is 0 again
  have hindex : UInt32.ofNat (2 ^ k) &&& sh.maxIndex = 0 := by
    apply UInt32.toNat_inj.mp
    rw [UInt32.toNat_and, hlen, Nat.and_comm, Nat.and_two_pow, hbit]
    exact Nat.zero_mul _
  let zeros : Block := ⟨List.replicate (2 ^ k) 0, .ofNat (2 ^ k), by
    rw [List.length_replicate, hlen]⟩
  let one : Block := ⟨[1], 1, rfl⟩
  let arr := storeAt (fun _ => 0) 0 zeros.bytes
  have hzeros : ((Op.write zeros).prog sh).run (exec ndebug) ⟨fun _ => 0, 0, 0⟩ =
      some (⟨zeros.bytes, []⟩, ⟨arr, 0, 0 + .ofNat (2 ^ k)⟩) :=
    run_write_front (by simp) (by simp [zeros, hlen, hk.le])
  have hwrite : ((Op.write one).prog sh).run (exec ndebug) ⟨arr, 0, .ofNat (2 ^ k)⟩ =
      some (⟨one.bytes, []⟩, ⟨storeAt arr 0 [1], 0, .ofNat (2 ^ k) + 1⟩) :=
    run_write_front hindex (by rw [hlen]; exact hk)
  have hle : 1 ≤ UInt32.ofNat (2 ^ k) + 1 := by
    rw [UInt32.le_iff_toNat_le, hone]
    exact Nat.le_add_left 1 _
  -- the reader gets the byte that was written last
  have hread : ((Op.consume 1).prog sh).run (exec ndebug)
      ⟨storeAt arr 0 [1], 0, .ofNat (2 ^ k) + 1⟩ =
        some (⟨[], span (storeAt arr 0 [1]) 0 1⟩, ⟨storeAt arr 0 [1], 1, .ofNat (2 ^ k) + 1⟩) := by
    rw [run_consume_front (by rw [UInt32.le_iff_toNat_le, hone]; exact hk), if_pos hle]
    rfl
  rw [UInt32.zero_add] at hzeros
  rw [show span (storeAt arr 0 [1]) 0 1 = [1] from span_storeAt arr 0 [1]] at hread
  exact ⟨zeros, one, _, rfl, run_client_cons hzeros (run_client_cons hwrite
    (run_client_cons hread rfl))⟩

/-- With a clear bit in `max_index_`, a byte written can cover one that is still unread. -/
theorem not_isFifo_of_clear_bit {sh : Shape} {k : ℕ} (hk : 2 ^ k < sh.capacity.toNat)
    (hbit : sh.maxIndex.toNat.testBit k = false) : ¬ sh.IsFifo ndebug := by
  intro hfifo
  obtain ⟨zeros, one, m', hzeros, hclash⟩ := @run_clash ndebug sh k hk hbit
  obtain ⟨es, m, q, hrun, hsteps⟩ := hfifo (fun _ => 0) [.write zeros, .write one, .consume 1]
  obtain ⟨rfl, -⟩ : _ = es ∧ m' = m := by simpa using hclash.symm.trans hrun
  obtain ⟨n, hn⟩ : ∃ n, 2 ^ k = n + 1 := ⟨2 ^ k - 1, by have := Nat.two_pow_pos k; omega⟩
  have hcons := hsteps.conservation
  -- the first byte accepted is 0, the first one delivered is 1
  simp [BoundedFifo.accepted, BoundedFifo.delivered, hzeros, hn, List.replicate_succ] at hcons

/-- **RingBuffer needs a power of two.** The ring that the constructor builds for a capacity is a
    bounded FIFO queue if and only if the capacity is a power of two, or 0. For any other capacity,
    a caller that keeps to what the ring accepts reads bytes that it did not write there. -/
theorem isFifo_iff_capacity (capacity : UInt32) (ndebug : Bool) :
    (Shape.ofCapacity capacity).IsFifo ndebug ↔ capacity = 0 ∨ ∃ k, capacity.toNat = 2 ^ k := by
  constructor
  · intro hfifo
    rcases exists_clear_bit capacity.toNat with hzero | hpow | ⟨k, hk, hbit⟩
    · exact .inl (UInt32.toNat_inj.mp hzero)
    · exact .inr hpow
    · refine absurd hfifo (not_isFifo_of_clear_bit hk ?_)
      have hone : 1 ≤ capacity := by
        rw [UInt32.le_iff_toNat_le, UInt32.toNat_one]
        exact Nat.lt_of_le_of_lt (Nat.zero_le _) hk
      rwa [Shape.ofCapacity, UInt32.toNat_sub_of_le _ _ hone]
  · rintro (rfl | ⟨k, hk⟩)
    · exact isFifo_zero rfl
    · -- a larger power does not fit into 32 bits
      have hlog : k ≤ 31 := by
        by_contra hgt
        have hle : 2 ^ 32 ≤ 2 ^ k := Nat.pow_le_pow_right (by decide) (by omega)
        exact absurd capacity.toNat_lt (by omega)
      exact PowShape.isFifo ⟨Shape.ofCapacity capacity, k, hlog, hk, rfl⟩

end ReechatBase.RingBuffer
