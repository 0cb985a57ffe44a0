import ReechatBase.Lib.Transition
import ReechatBase.Libevent.MinHeap

/-!
# The timer heap as a priority queue

What the heap of `MinHeap` is for: a set of events, each waiting for its time, from which the
earliest can be taken. `Spec` says what every call may do to that set and return, and the heap
refines it over every sequence of calls, whichever allocations fail.
-/

namespace ReechatBase.Libevent

open Function Lib

variable {ε : Type} [DecidableEq ε]

/-! ## Calls -/

/-- The calls on a heap. A call that stores an event sets its time first. -/
inductive HeapCall (ε : Type) where
  | push (e : ε) (tv : Timeval) (realloc : Bool)
  | top
  | pop
  | erase (e : ε)
  | adjust (e : ε) (tv : Timeval) (realloc : Bool)
  | reserve (n : ℕ) (realloc : Bool)

/-- What a call returns -/
inductive HeapReturn (ε : Type) where
  | status (res : ℤ)
  | event (e : Option ε)

namespace MinHeap

/-- A call and what it returns. -/
def call (s : MinHeap ε) : HeapCall ε → Option (MinHeap ε × HeapReturn ε)
  | .push e tv realloc => ((s.setTimeout e tv).push e realloc).map fun r => (r.1, .status r.2)
  | .top => some (s, .event s.top)
  | .pop => s.pop.map fun r => (r.1, .event r.2)
  | .erase e => (s.erase e).map fun r => (r.1, .status r.2)
  | .adjust e tv realloc =>
    ((s.setTimeout e tv).adjust e realloc).map fun r => (r.1, .status r.2)
  | .reserve n realloc => some ((s.reserve n realloc).1, .status (s.reserve n realloc).2)

/-- What the callers see to: an event is not pushed twice, and fewer than `2 ^ 31` events wait. -/
def Legal (s : MinHeap ε) : HeapCall ε → Prop
  | .push e _ _ => s.minHeapIdx e = -1 ∧ s.n + 1 < 2 ^ 31
  | .adjust e _ _ => s.minHeapIdx e = -1 → s.n + 1 < 2 ^ 31
  | _ => True

/-- The heaps that calls build. -/
def calls : Lts (MinHeap ε) (HeapCall ε × HeapReturn ε) where
  init s := ∃ p evTimeout, s = ctor p evTimeout
  step s l t := s.call l.1 = some (t, l.2)

/-! ## The queue -/

/-- The events that wait, each with its time. -/
def pending (s : MinHeap ε) (e : ε) : Option Timeval :=
  if s.minHeapIdx e = -1 then none else some (s.evTimeout e)

end MinHeap

/-- What a call may do to the events that wait, and return. -/
inductive HeapCall.Spec : (ε → Option Timeval) → HeapCall ε → HeapReturn ε →
    (ε → Option Timeval) → Prop where
  | pushed {q : ε → Option Timeval} {e : ε} {tv : Timeval} {realloc : Bool} :
      Spec q (.push e tv realloc) (.status 0) (update q e (some tv))
  | pushRefused {q : ε → Option Timeval} {e : ε} {tv : Timeval} :
      Spec q (.push e tv false) (.status (-1)) q
  | topped {q : ε → Option Timeval} {e : ε} {tv : Timeval} :
      q e = some tv → (∀ x u, q x = some u → tv ≤ u) → Spec q .top (.event (some e)) q
  | topEmpty {q : ε → Option Timeval} : (∀ x, q x = none) → Spec q .top (.event none) q
  | popped {q : ε → Option Timeval} {e : ε} {tv : Timeval} :
      q e = some tv → (∀ x u, q x = some u → tv ≤ u) →
      Spec q .pop (.event (some e)) (update q e none)
  | popEmpty {q : ε → Option Timeval} : (∀ x, q x = none) → Spec q .pop (.event none) q
  | erased {q : ε → Option Timeval} {e : ε} {tv : Timeval} : q e = some tv →
      Spec q (.erase e) (.status 0) (update q e none)
  | eraseAbsent {q : ε → Option Timeval} {e : ε} : q e = none → Spec q (.erase e) (.status (-1)) q
  | adjusted {q : ε → Option Timeval} {e : ε} {tv : Timeval} {realloc : Bool} :
      Spec q (.adjust e tv realloc) (.status 0) (update q e (some tv))
  | adjustRefused {q : ε → Option Timeval} {e : ε} {tv : Timeval} : q e = none →
      Spec q (.adjust e tv false) (.status (-1)) q
  | reserved {q : ε → Option Timeval} {n : ℕ} {realloc : Bool} :
      Spec q (.reserve n realloc) (.status 0) q
  | reserveRefused {q : ε → Option Timeval} {n : ℕ} :
      Spec q (.reserve n false) (.status (-1)) q

namespace MinHeap

variable {s t : MinHeap ε} {e : ε} {M : Set ε}

omit [DecidableEq ε] in
theorem Wf.pending_of_mem (hw : Wf s M) (he : e ∈ M) : s.pending e = some (s.evTimeout e) :=
  if_neg (hw.idx_ne_iff.mpr he)

omit [DecidableEq ε] in
theorem Wf.pending_of_notMem (hw : Wf s M) (he : e ∉ M) : s.pending e = none :=
  if_pos (hw.other e he)

omit [DecidableEq ε] in
theorem Wf.mem_of_pending (hw : Wf s M) {tv : Timeval} (h : s.pending e = some tv) :
    e ∈ M ∧ tv = s.evTimeout e := by
  have he : e ∈ M := by
    by_contra hno
    rw [hw.pending_of_notMem hno] at h
    cases h
  rw [hw.pending_of_mem he] at h
  exact ⟨he, (Option.some.inj h).symm⟩

omit [DecidableEq ε] in
theorem Wf.pending_of_empty (hw : Wf s M) (hM : M = ∅) (x : ε) : s.pending x = none :=
  hw.pending_of_notMem (hM ▸ Set.notMem_empty x)

omit [DecidableEq ε] in
/-- What is earliest in the heap is earliest of what waits. -/
theorem Wf.le_of_pending (hw : Wf s M) {tv : Timeval} (hleast : ∀ x ∈ M, tv ≤ s.evTimeout x)
    (x : ε) (u : Timeval) (hx : s.pending x = some u) : tv ≤ u := by
  obtain ⟨hxM, rfl⟩ := hw.mem_of_pending hx
  exact hleast x hxM

/-- An event is added with a time, or given another one. -/
theorem Wf.pending_insert (hw : Wf s M) {tv : Timeval} (ht : Wf t (insert e M))
    (htime : t.evTimeout = update s.evTimeout e tv) :
    t.pending = update s.pending e (some tv) := by
  funext x
  by_cases hxe : x = e
  · subst hxe
    rw [ht.pending_of_mem (Or.inl rfl), htime, update_self, update_self]
  · rw [update_of_ne hxe]
    by_cases hx : x ∈ M
    · rw [ht.pending_of_mem (Or.inr hx), hw.pending_of_mem hx, htime, update_of_ne hxe]
    · have hx' : x ∉ insert e M := fun h => h.elim hxe hx
      rw [ht.pending_of_notMem hx', hw.pending_of_notMem hx]

theorem Wf.pending_erase (hw : Wf s M) (ht : Wf t (M \ {e})) (htime : t.evTimeout = s.evTimeout) :
    t.pending = update s.pending e none := by
  funext x
  by_cases hxe : x = e
  · subst hxe
    rw [ht.pending_of_notMem fun h => h.2 rfl, update_self]
  · rw [update_of_ne hxe]
    by_cases hx : x ∈ M
    · rw [ht.pending_of_mem ⟨hx, hxe⟩, hw.pending_of_mem hx, htime]
    · rw [ht.pending_of_notMem fun h => hx h.1, hw.pending_of_notMem hx]

theorem Wf.pending_setTimeout (hw : Wf s M) (he : e ∉ M) (tv : Timeval) :
    (s.setTimeout e tv).pending = s.pending := by
  funext x
  by_cases hx : x ∈ M
  · have hxe : x ≠ e := fun h => he (h ▸ hx)
    rw [(hw.setTimeout he tv).pending_of_mem hx, hw.pending_of_mem hx]
    exact congrArg some (update_of_ne hxe ..)
  · rw [(hw.setTimeout he tv).pending_of_notMem hx, hw.pending_of_notMem hx]

/-! ## Refinement -/

/-- A push, of an event that is not in the heap. -/
theorem Wf.call_push (hw : Wf s M) (he : e ∉ M) (hn : s.n + 1 < 2 ^ 31) (tv : Timeval)
    (realloc : Bool) :
    ∃ t res M', (s.setTimeout e tv).push e realloc = some (t, res) ∧ Wf t M' ∧
      (res = 0 ∧ t.pending = update s.pending e (some tv) ∨
        res = -1 ∧ t.pending = s.pending ∧ realloc = false) := by
  have hw' := hw.setTimeout he tv
  rcases hw'.push he hn realloc with ⟨t, ht, hwt, htime, -⟩ | ⟨ht, -, hre⟩
  · exact ⟨t, 0, _, ht, hwt, .inl ⟨rfl, hw.pending_insert hwt htime⟩⟩
  · exact ⟨_, -1, _, ht, hw', .inr ⟨rfl, hw.pending_setTimeout he tv, hre⟩⟩

/-- Every call has a result, keeps the heap whole and does what `Spec` says. -/
theorem Wf.call_spec (hw : Wf s M) (c : HeapCall ε) (hc : Legal s c) :
    ∃ t r M', s.call c = some (t, r) ∧ Wf t M' ∧ c.Spec s.pending r t.pending := by
  cases c with
  | push e tv realloc =>
    have he : e ∉ M := fun h => hw.idx_ne_iff.mpr h hc.1
    obtain ⟨t, res, M', ht, hwt, hres⟩ := hw.call_push he hc.2 tv realloc
    refine ⟨t, .status res, M', by simp [call, ht], hwt, ?_⟩
    rcases hres with ⟨rfl, hq⟩ | ⟨rfl, hq, rfl⟩
    · exact hq ▸ .pushed
    · exact hq ▸ .pushRefused
  | top =>
    refine ⟨s, .event s.top, M, rfl, hw, ?_⟩
    cases htop : s.top with
    | none =>
      have hM : M = ∅ := hw.top_eq_none.mp htop
      exact .topEmpty (hw.pending_of_empty hM)
    | some e =>
      obtain ⟨he, hleast⟩ := hw.top_eq_some htop
      exact .topped (hw.pending_of_mem he) (hw.le_of_pending hleast)
  | pop =>
    rcases M.eq_empty_or_nonempty with hM | hM
    · have hn : s.n = 0 := hw.n_eq_zero_iff.mpr hM
      refine ⟨s, .event none, M, by simp [call, MinHeap.pop, hn], hw, ?_⟩
      exact .popEmpty (hw.pending_of_empty hM)
    · obtain ⟨t, e, ht, he, hleast, hwt, htime⟩ := hw.pop hM
      refine ⟨t, .event (some e), _, by simp [call, ht], hwt, ?_⟩
      rw [hw.pending_erase hwt htime]
      exact .popped (hw.pending_of_mem he) (hw.le_of_pending hleast)
  | erase e =>
    by_cases he : e ∈ M
    · obtain ⟨t, ht, hwt, htime, -⟩ := hw.erase he
      refine ⟨t, .status 0, _, by simp [call, ht], hwt, ?_⟩
      exact hw.pending_erase hwt htime ▸ .erased (hw.pending_of_mem he)
    · refine ⟨s, .status (-1), M, by simp [call, hw.erase_of_notMem he], hw, ?_⟩
      exact .eraseAbsent (hw.pending_of_notMem he)
  | adjust e tv realloc =>
    by_cases he : e ∈ M
    · obtain ⟨t, ht, hwt, htime⟩ := hw.adjust he tv realloc
      refine ⟨t, .status 0, M, by simp [call, ht], hwt, ?_⟩
      rw [hw.pending_insert ((Set.insert_eq_of_mem he).symm ▸ hwt) htime]
      exact .adjusted
    · -- `min_heap_adjust_` of an event outside the heap pushes it
      have hidx : s.minHeapIdx e = -1 := hw.other e he
      obtain ⟨t, res, M', ht, hwt, hres⟩ := hw.call_push he (hc hidx) tv realloc
      have hadj : (s.setTimeout e tv).adjust e realloc = some (t, res) := (if_pos hidx).trans ht
      refine ⟨t, .status res, M', by simp [call, hadj], hwt, ?_⟩
      rcases hres with ⟨rfl, hq⟩ | ⟨rfl, hq, rfl⟩
      · exact hq ▸ .adjusted
      · rw [hq]
        exact .adjustRefused (hw.pending_of_notMem he)
  | reserve n realloc =>
    rcases s.reserve_cases n realloc with ⟨a, hres, -, ha⟩ | ⟨hres, -, rfl⟩
    · refine ⟨_, _, M, rfl, ?_, ?_⟩
      · rw [hres]
        exact ⟨hw.room.trans ha, hw.bound, hw.indexed, hw.ordered, hw.other⟩
      · rw [hres]
        exact .reserved
    · refine ⟨_, _, M, rfl, ?_, ?_⟩
      · rw [hres]
        exact hw
      · rw [hres]
        exact .reserveRefused

theorem wf_of_reachable (hs : calls.ReachableBy (fun s l => Legal s l.1) s) : ∃ M, Wf s M := by
  apply hs.invariant
  case hinit =>
    intro s hs
    obtain ⟨p, evTimeout, rfl⟩ := hs
    exact ⟨∅, ctor_wf p evTimeout⟩
  intro s l t hI hok hst
  obtain ⟨M, hw⟩ := hI
  obtain ⟨t', r, M', hcall, hwt, -⟩ := hw.call_spec l.1 hok
  obtain ⟨rfl, -⟩ : t = t' ∧ l.2 = r := by simpa using hst.symm.trans hcall
  exact ⟨M', hwt⟩

/-- **The heap is a priority queue.** On every heap that calls have built, whichever of their
    allocations failed, every call stays inside the block, returns, and does to the waiting events
    what `Spec` says: a push or a removal concerns its own event only, a refused push changes
    nothing, and what `min_heap_top_` and `min_heap_pop_` return waits for the earliest time. -/
theorem call_refines (hs : calls.ReachableBy (fun s l => Legal s l.1) s) (c : HeapCall ε)
    (hc : Legal s c) : ∃ t r, s.call c = some (t, r) ∧ c.Spec s.pending r t.pending := by
  obtain ⟨M, hw⟩ := wf_of_reachable hs
  obtain ⟨t, r, -, hcall, -, hspec⟩ := hw.call_spec c hc
  exact ⟨t, r, hcall, hspec⟩

/-- Of two events, `min_heap_top_` and `min_heap_pop_` return the earlier one, which was pushed
    last. -/
theorem call_refines_two : ∃ s t : MinHeap ℕ, s.n = 2 ∧
    s.call .top = some (s, .event (some 5)) ∧ s.call .pop = some (t, .event (some 5)) ∧
    HeapCall.Spec s.pending .top (.event (some 5)) s.pending ∧
    HeapCall.Spec s.pending .pop (.event (some 5)) t.pending := by
  have h₀ : calls.ReachableBy (fun s l => Legal s l.1)
      (ctor (fun _ => 0) fun _ => ⟨0, 0⟩ : MinHeap ℕ) := .init ⟨_, _, rfl⟩
  have h₁ := h₀.step (l := (HeapCall.push 7 ⟨1, 0⟩ true, HeapReturn.status 0))
    ⟨rfl, by decide⟩ rfl
  have h₂ := h₁.step (l := (HeapCall.push 5 ⟨0, 500⟩ true, HeapReturn.status 0))
    ⟨rfl, by decide⟩ rfl
  obtain ⟨s, r, hs, htop⟩ := call_refines h₂ .top trivial
  obtain ⟨t, r', ht, hpop⟩ := call_refines h₂ .pop trivial
  cases hs
  cases ht
  exact ⟨_, _, rfl, rfl, rfl, htop, hpop⟩

end MinHeap

end ReechatBase.Libevent
