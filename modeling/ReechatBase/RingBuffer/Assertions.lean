import ReechatBase.RingBuffer.Fifo
import ReechatBase.Lib.Transition

/-!
# The assertions of RingBuffer

Seven member functions of `RingBuffer` contain an `assert`. This file follows a ring through every
sequence of their calls, from the empty ring, and settles which assertions can fail.

Main results:

- `Call.run_eq`: what one call does to a ring, assertions included;
- `assertion_passes_iff`: in every reachable state all of them pass, except the one of
  `AvailableRead`, which fails exactly on a completely full ring.
-/

namespace ReechatBase.RingBuffer

open Lib Lib.Prog

/-- A call of one of the member functions that contain an assertion. -/
inductive Call where
  | availableRead
  | availableSeriesRead
  | consumeSeriesReadLen (len : UInt32)
  | writeContent (b : Block)
  | availableWrite
  | availableSeriesWrite
  | consumeSeriesWriteLen (len : UInt32)

namespace Call

/-- The call as a program, its result discarded. -/
def prog (sh : Shape) : Call → Prog sig Unit
  | .availableRead => do
    let _ ← RingBuffer.availableRead sh
    ret ()
  | .availableSeriesRead => do
    let _ ← RingBuffer.availableSeriesRead sh
    ret ()
  | .consumeSeriesReadLen len => RingBuffer.consumeSeriesReadLen sh len
  | .writeContent b => do
    let _ ← RingBuffer.writeContent sh b.bytes b.len
    ret ()
  | .availableWrite => do
    let _ ← RingBuffer.availableWrite sh
    ret ()
  | .availableSeriesWrite => do
    let _ ← RingBuffer.availableSeriesWrite sh
    ret ()
  | .consumeSeriesWriteLen len => RingBuffer.consumeSeriesWriteLen sh len

/-- The length passed to a `Consume` function is at most what the function beside it reports;
    `WriteContent` takes a block of any length. -/
def Allowed (sh : Shape) (m : Mem) : Call → Prop
  | .consumeSeriesReadLen len =>
    ∃ n, (RingBuffer.availableSeriesRead sh).run (exec true) m = some (n, m) ∧ len ≤ n
  | .consumeSeriesWriteLen len =>
    ∃ n, (RingBuffer.availableSeriesWrite sh).run (exec true) m = some (n, m) ∧ len ≤ n
  | _ => True

@[simp] theorem allowed_availableRead (sh : Shape) (m : Mem) :
    Call.availableRead.Allowed sh m := trivial

@[simp] theorem allowed_writeContent (sh : Shape) (m : Mem) (b : Block) :
    (Call.writeContent b).Allowed sh m := trivial

/-- Called on `m` with assertions enabled, the function returns: its assertion does not fail. -/
def Passes (sh : Shape) (c : Call) (m : Mem) : Prop :=
  ((c.prog sh).run (exec false) m).isSome

end Call

/-- A ring from its empty state on, under calls of these functions. -/
def calls (sh : PowShape) (ndebug : Bool) : Lts Mem Call where
  init m := m.readCount = m.writeCount
  step m c m' := c.Allowed sh.toShape m ∧ (c.prog sh.toShape).run (exec ndebug) m = some ((), m')

/-! ## One call -/

namespace Call

variable {sh : PowShape} {ndebug : Bool} {m : Mem}

theorem run_availableRead_call (m : Mem) :
    (Call.availableRead.prog sh.toShape).run (exec ndebug) m =
      if ndebug || m.size < sh.cap then some ((), m) else none := by
  simp only [prog, run_bind, run_availableRead]
  split <;> rfl

/-- The length of a `ConsumeSeriesReadLen` call lies within the span at the read head. -/
theorem Allowed.le_readSpan {len : UInt32} (hm : m.size ≤ sh.cap)
    (hc : (Call.consumeSeriesReadLen len).Allowed sh.toShape m) :
    len.toNat ≤ seriesLen sh.cap (m.readCount.toNat % sh.cap) m.size := by
  obtain ⟨n, hrun, hle⟩ := hc
  obtain ⟨n', hrun', hn'⟩ := @run_availableSeriesRead sh true m hm
  obtain rfl : n = n' := by simpa [hrun] using hrun'
  exact hn' ▸ UInt32.le_iff_toNat_le.mp hle

/-- The length of a `ConsumeSeriesWriteLen` call lies within the span at the write head. -/
theorem Allowed.le_writeSpan {len : UInt32} (hm : m.size ≤ sh.cap)
    (hc : (Call.consumeSeriesWriteLen len).Allowed sh.toShape m) :
    len.toNat ≤ seriesLen sh.cap (m.writeCount.toNat % sh.cap) (sh.cap - m.size) := by
  obtain ⟨n, hrun, hle⟩ := hc
  obtain ⟨n', hrun', hn'⟩ := @run_availableSeriesWrite sh true m hm
  obtain rfl : n = n' := by simpa [hrun] using hrun'
  exact hn' ▸ UInt32.le_iff_toNat_le.mp hle

/-- A block that fits is published, one that does not is refused. -/
theorem run_writeContent_call (hm : m.size ≤ sh.cap) (b : Block) :
    ∃ m', ((Call.writeContent b).prog sh.toShape).run (exec ndebug) m = some ((), m') ∧
      m'.size ≤ sh.cap := by
  rcases Nat.lt_or_ge sh.cap (m.size + b.len.toNat) with hfull | hfit
  · have hrun := @run_writeContent_full sh ndebug m hm b hfull
    exact ⟨m, by rw [prog, run_bind_of_eq hrun, run_ret], hm⟩
  · have hrun := @run_writeContent_copy sh ndebug m hm b hfit
    refine ⟨_, by rw [prog, run_bind_of_eq hrun, run_ret], ?_⟩
    rw [Mem.size_addWrite sh _ (by rwa [Mem.size_setData]), Mem.size_setData]
    exact hfit

/-- **One call** on a ring that holds at most its capacity. `AvailableRead` aborts on a full ring
    when assertions are enabled; every other function returns, and the ring still holds at most
    its capacity. -/
theorem run_eq (hm : m.size ≤ sh.cap) {c : Call} (hc : c.Allowed sh.toShape m) :
    (c = .availableRead ∧ ndebug = false ∧ m.size = sh.cap ∧
      (c.prog sh.toShape).run (exec ndebug) m = none) ∨
    ((c = .availableRead → ndebug = true ∨ m.size < sh.cap) ∧
      ∃ m', (c.prog sh.toShape).run (exec ndebug) m = some ((), m') ∧ m'.size ≤ sh.cap) := by
  cases c with
  | availableRead =>
    rw [run_availableRead_call]
    by_cases hpass : ndebug || m.size < sh.cap
    · exact .inr ⟨fun _ => by simpa using hpass, m, if_pos hpass, hm⟩
    · -- `capacity_ > size` is strict, and fails on a full ring
      obtain ⟨hdebug, hfull⟩ : ndebug = false ∧ ¬ m.size < sh.cap := by simpa using hpass
      exact .inl ⟨rfl, hdebug, by omega, if_neg hpass⟩
  | availableSeriesRead =>
    obtain ⟨n, hrun, -⟩ := @run_availableSeriesRead sh ndebug m hm
    exact .inr ⟨nofun, m, by rw [prog, run_bind_of_eq hrun, run_ret], hm⟩
  | consumeSeriesReadLen len =>
    have hlen := hc.le_readSpan hm
    refine .inr ⟨nofun, m.addRead len, run_consumeSeriesReadLen hlen, ?_⟩
    rw [m.size_addRead (hlen.trans (Nat.min_le_left _ _))]
    omega
  | writeContent b => exact .inr ⟨nofun, run_writeContent_call hm b⟩
  | availableWrite =>
    obtain ⟨n, hrun, -⟩ := @run_availableWrite sh ndebug m hm
    exact .inr ⟨nofun, m, by rw [prog, run_bind_of_eq hrun, run_ret], hm⟩
  | availableSeriesWrite =>
    obtain ⟨n, hrun, -⟩ := @run_availableSeriesWrite sh ndebug m hm
    exact .inr ⟨nofun, m, by rw [prog, run_bind_of_eq hrun, run_ret], hm⟩
  | consumeSeriesWriteLen len =>
    have hlen := hc.le_writeSpan hm
    have hfit : m.size + len.toNat ≤ sh.cap := by
      have := hlen.trans (Nat.min_le_left _ _)
      omega
    refine .inr ⟨nofun, m.addWrite len, run_consumeSeriesWriteLen hlen, ?_⟩
    rw [m.size_addWrite sh hfit]
    exact hfit

end Call

/-! ## Every reachable state -/

variable {sh : PowShape} {ndebug : Bool} {m : Mem}

/-- The invariant of a ring: the two counters are at most the capacity apart. -/
theorem size_le_of_reachable (hm : (calls sh ndebug).Reachable m) : m.size ≤ sh.cap := by
  refine hm.invariant (I := fun m => m.size ≤ sh.cap) ?_ ?_
  · intro m hempty
    rw [Mem.size, ← show m.readCount = m.writeCount from hempty]
    simp
  · rintro m c m' hle ⟨hc, hrun⟩
    rcases @Call.run_eq sh ndebug m hle c hc with ⟨-, -, -, hnone⟩ | ⟨-, m₁, hrun₁, hle₁⟩
    · simp [hnone] at hrun
    · obtain rfl : m₁ = m' := by simpa [hrun₁] using hrun
      exact hle₁

/-- **The assertions of RingBuffer.** In every state that a ring of any power-of-two capacity
    reaches from the empty ring, a call passes its assertion, unless it is a call of
    `AvailableRead` on a completely full ring, which fails. -/
theorem assertion_passes_iff (sh : PowShape) (ndebug : Bool) {m : Mem}
    (hm : (calls sh ndebug).Reachable m) {c : Call} (hc : c.Allowed sh.toShape m) :
    c.Passes sh.toShape m ↔ (c = .availableRead → m.size ≠ sh.cap) := by
  have hle := size_le_of_reachable hm
  rw [Call.Passes]
  rcases @Call.run_eq sh false m hle c hc with ⟨rfl, -, hfull, hnone⟩ | ⟨hroom, m', hrun, -⟩
  · simp [hnone, hfull]
  · refine iff_of_true (by simp [hrun]) fun hread => ?_
    have hlt := (hroom hread).resolve_left Bool.false_ne_true
    exact hlt.ne

/-- An empty array with both counters at zero. -/
def zeroed : Mem := ⟨fun _ => 0, 0, 0⟩

theorem assertion_passes_iff_three : ∃ m, (calls (.ofLog 2 (by decide)) false).Reachable m ∧
    m.writeCount = 3 ∧ Call.availableRead.Passes (PowShape.ofLog 2 (by decide)).toShape m := by
  have hempty : (calls (.ofLog 2 (by decide)) false).Reachable zeroed := .init rfl
  have hthree := Lts.ReachableBy.step hempty trivial
    ⟨Call.allowed_writeContent _ _ ⟨[5, 6, 7], 3, rfl⟩, rfl⟩
  exact ⟨_, hthree, rfl, (assertion_passes_iff (.ofLog 2 (by decide)) false hthree
    (Call.allowed_availableRead _ _)).mpr fun _ => by decide⟩

/-- A block as long as the ring fills it completely. -/
theorem exists_full (sh : PowShape) (ndebug : Bool) :
    ∃ m, (calls sh ndebug).Reachable m ∧ m.size = sh.cap := by
  let b : Block := ⟨List.replicate sh.cap 0, sh.capacity, by simp⟩
  have hfit : zeroed.size + b.len.toNat ≤ sh.cap := by simp [zeroed, Mem.size, b]
  have hrun := @run_writeContent_copy sh ndebug zeroed (Nat.zero_le _) b hfit
  refine ⟨_, .step (l := .writeContent b) (.init (s := zeroed) rfl) trivial
    ⟨Call.allowed_writeContent _ _ b, by rw [Call.prog, run_bind_of_eq hrun, run_ret]⟩, ?_⟩
  rw [Mem.size_addWrite sh _ (by rwa [Mem.size_setData]), Mem.size_setData]
  simp [zeroed, Mem.size, b]

/-- **The strict assertion.** The ring of the code, of `2 ^ 24` bytes, can be filled completely;
    then `AvailableRead` aborts the process. -/
theorem availableRead_fails_full : ∃ m, (calls (.ofLog 24 (by decide)) false).Reachable m ∧
    Call.availableRead.Allowed (PowShape.ofLog 24 (by decide)).toShape m ∧
    ¬ Call.availableRead.Passes (PowShape.ofLog 24 (by decide)).toShape m := by
  obtain ⟨m, hm, hfull⟩ := exists_full (.ofLog 24 (by decide)) false
  refine ⟨m, hm, Call.allowed_availableRead _ _, ?_⟩
  rw [Call.Passes, Call.run_availableRead_call, hfull]
  simp

end ReechatBase.RingBuffer
