import Mathlib.Algebra.Group.Int.Defs
import Mathlib.Algebra.Group.Nat.Defs
import Mathlib.Data.Prod.Lex
import ReechatBase.Lib.Heap

/-!
# The timer heap of libevent

`minheap-internal.h`: the binary heap of events by `ev_timeout` that libevent keeps its timeouts in,
with the index that every event has into it. Reading or writing outside the block of `a` pointers
has no result, and neither has a loop that runs out of its fuel: that the operations have a result
on every heap that the library can build (`Wf`) is part of their specifications.

- `Timeval`: `struct timeval` and the macros on it;
- `MinHeap`: the functions of the header;
- `Wf`: heap order and back pointers, with one specification lemma a function.
-/

namespace ReechatBase.Libevent

open Function Lib.Heap

/-! ## Time -/

/-- `struct timeval` -/
structure Timeval where
  tvSec : ℤ
  tvUsec : ℤ
  deriving DecidableEq

namespace Timeval

/-- `evutil_timercmp(tvp, uvp, cmp)` -/
def timercmp (tvp uvp : Timeval) (cmp : ℤ → ℤ → Bool) : Bool :=
  if tvp.tvSec = uvp.tvSec then cmp tvp.tvUsec uvp.tvUsec else cmp tvp.tvSec uvp.tvSec

/-- `evutil_timeradd` -/
def timeradd (tvp uvp : Timeval) : Timeval :=
  let tvSec := tvp.tvSec + uvp.tvSec
  let tvUsec := tvp.tvUsec + uvp.tvUsec
  if tvUsec ≥ 1000000 then ⟨tvSec + 1, tvUsec - 1000000⟩ else ⟨tvSec, tvUsec⟩

/-- `evutil_timersub` -/
def timersub (tvp uvp : Timeval) : Timeval :=
  let tvSec := tvp.tvSec - uvp.tvSec
  let tvUsec := tvp.tvUsec - uvp.tvUsec
  if tvUsec < 0 then ⟨tvSec - 1, tvUsec + 1000000⟩ else ⟨tvSec, tvUsec⟩

/-- The order that `timercmp` decides. -/
instance : LinearOrder Timeval :=
  LinearOrder.lift' (fun t => toLex (t.tvSec, t.tvUsec)) fun t u h => by
    cases t
    cases u
    simpa using h

theorem lt_iff {t u : Timeval} :
    t < u ↔ t.tvSec < u.tvSec ∨ t.tvSec = u.tvSec ∧ t.tvUsec < u.tvUsec :=
  Prod.Lex.toLex_lt_toLex

theorem le_iff {t u : Timeval} :
    t ≤ u ↔ t.tvSec < u.tvSec ∨ t.tvSec = u.tvSec ∧ t.tvUsec ≤ u.tvUsec :=
  Prod.Lex.toLex_le_toLex

theorem timercmp_gt {t u : Timeval} : timercmp t u (· > ·) = true ↔ u < t := by
  rw [lt_iff]
  unfold timercmp
  split <;> simp <;> omega

theorem timercmp_le {t u : Timeval} : timercmp t u (· ≤ ·) = true ↔ t ≤ u := by
  rw [le_iff]
  unfold timercmp
  split <;> simp <;> omega

end Timeval

/-! ## The heap -/

/-- A `min_heap_t`, with the two fields of the events that it works on. -/
structure MinHeap (ε : Type) where
  /-- The block that `p` points to -/
  p : ℕ → ε
  n : ℕ
  a : ℕ
  /-- `ev_timeout_pos.min_heap_idx` -/
  minHeapIdx : ε → ℤ
  /-- `ev_timeout` -/
  evTimeout : ε → Timeval

namespace MinHeap

variable {ε : Type} [DecidableEq ε]

/-- `min_heap_ctor_`, with events on which `min_heap_elem_init_` has run -/
def ctor (p : ℕ → ε) (evTimeout : ε → Timeval) : MinHeap ε :=
  ⟨p, 0, 0, fun _ => -1, evTimeout⟩

/-- `s->p[i]`, read -/
def load (s : MinHeap ε) (i : ℕ) : Option ε :=
  if i < s.a then some (s.p i) else none

/-- `(s->p[i] = e)->ev_timeout_pos.min_heap_idx = i` -/
def store (s : MinHeap ε) (i : ℕ) (e : ε) : Option (MinHeap ε) :=
  if i < s.a then
    some { s with p := update s.p i e, minHeapIdx := update s.minHeapIdx e i }
  else none

/-- `e->ev_timeout_pos.min_heap_idx = -1` -/
def elemInit (s : MinHeap ε) (e : ε) : MinHeap ε :=
  { s with minHeapIdx := update s.minHeapIdx e (-1) }

/-- `e->ev_timeout = tv` -/
def setTimeout (s : MinHeap ε) (e : ε) (tv : Timeval) : MinHeap ε :=
  { s with evTimeout := update s.evTimeout e tv }

/-- `min_heap_elem_greater` -/
def elemGreater (s : MinHeap ε) (x y : ε) : Bool :=
  (s.evTimeout x).timercmp (s.evTimeout y) (· > ·)

/-- `min_heap_top_` -/
def top (s : MinHeap ε) : Option ε :=
  if s.n = 0 then none else some (s.p 0)

/-- `min_heap_reserve_`, where `realloc` says whether `mm_realloc` finds room. -/
def reserve (s : MinHeap ε) (n : ℕ) (realloc : Bool) : MinHeap ε × ℤ :=
  if s.a < n then
    let a := if s.a ≠ 0 then s.a * 2 % 2 ^ 32 else 8
    let a := if a < n then n else a
    if realloc then ({ s with a := a }, 0) else (s, -1)
  else (s, 0)

/-- The loop of `min_heap_shift_up_`, with the store that follows it. -/
def shiftUp : ℕ → MinHeap ε → ℕ → ε → Option (MinHeap ε)
  | 0, _, _, _ => none
  | fuel + 1, s, holeIndex, e =>
    if holeIndex = 0 then s.store holeIndex e
    else do
      let q ← s.load (parent holeIndex)
      if s.elemGreater q e then
        let s ← s.store holeIndex q
        shiftUp fuel s (parent holeIndex) e
      else s.store holeIndex e

/-- `min_heap_shift_up_unconditional_`: the body of the loop comes before its first test. -/
def shiftUpUnconditional (s : MinHeap ε) (holeIndex : ℕ) (e : ε) : Option (MinHeap ε) := do
  let q ← s.load (parent holeIndex)
  let s ← s.store holeIndex q
  shiftUp (holeIndex + 1) s (parent holeIndex) e

/-- `min_child -= min_child == s->n || min_heap_elem_greater(s->p[min_child], s->p[min_child - 1])`,
    the new `min_child` -/
def lesserChild (s : MinHeap ε) (minChild : ℕ) : Option ℕ :=
  if minChild = s.n then some (minChild - 1)
  else do
    let right ← s.load minChild
    let left ← s.load (minChild - 1)
    return if s.elemGreater right left then minChild - 1 else minChild

/-- The loop of `min_heap_shift_down_`, with the store that follows it. -/
def shiftDown : ℕ → MinHeap ε → ℕ → ε → Option (MinHeap ε)
  | 0, _, _, _ => none
  | fuel + 1, s, holeIndex, e =>
    let minChild := 2 * (holeIndex + 1) % 2 ^ 32
    if minChild ≤ s.n then do
      let minChild ← s.lesserChild minChild
      let q ← s.load minChild
      if s.elemGreater e q then
        let s ← s.store holeIndex q
        shiftDown fuel s minChild e
      else s.store holeIndex e
    else s.store holeIndex e

/-- `min_heap_push_` -/
def push (s : MinHeap ε) (e : ε) (realloc : Bool) : Option (MinHeap ε × ℤ) :=
  let (s, failed) := s.reserve ((s.n + 1) % 2 ^ 32) realloc
  if failed ≠ 0 then some (s, -1)
  else do
    let s ← shiftUp (s.n + 1) { s with n := s.n + 1 } s.n e
    return (s, 0)

/-- `min_heap_pop_` -/
def pop (s : MinHeap ε) : Option (MinHeap ε × Option ε) :=
  if s.n ≠ 0 then do
    let e ← s.load 0
    let s := { s with n := s.n - 1 }
    let last ← s.load s.n
    let s ← shiftDown (s.n + 1) s 0 last
    return (s.elemInit e, some e)
  else some (s, none)

/-- What `min_heap_erase_` and `min_heap_adjust_` have in common: `e` is to stand at `holeIndex`,
    or as far up or down from there as its time demands. -/
def shift (s : MinHeap ε) (holeIndex : ℕ) (e : ε) : Option (MinHeap ε) :=
  if holeIndex > 0 then do
    let q ← s.load (parent holeIndex)
    if s.elemGreater q e then shiftUpUnconditional s holeIndex e
    else shiftDown (s.n + 1) s holeIndex e
  else shiftDown (s.n + 1) s holeIndex e

/-- `min_heap_erase_` -/
def erase (s : MinHeap ε) (e : ε) : Option (MinHeap ε × ℤ) :=
  if s.minHeapIdx e ≠ -1 then do
    let s := { s with n := s.n - 1 }
    let last ← s.load s.n
    let s ← s.shift (s.minHeapIdx e).toNat last
    return (s.elemInit e, 0)
  else some (s, -1)

/-- `min_heap_adjust_` -/
def adjust (s : MinHeap ε) (e : ε) (realloc : Bool) : Option (MinHeap ε × ℤ) :=
  if s.minHeapIdx e = -1 then s.push e realloc
  else do
    let s ← s.shift (s.minHeapIdx e).toNat e
    return (s, 0)

/-! ## Loads and stores -/

/-- The key by which position `i` is ordered. -/
def key (s : MinHeap ε) (i : ℕ) : Timeval :=
  s.evTimeout (s.p i)

/-- `s` once `e` is stored at `i`. -/
def stored (s : MinHeap ε) (i : ℕ) (e : ε) : MinHeap ε :=
  { s with p := update s.p i e, minHeapIdx := update s.minHeapIdx e i }

variable {s t : MinHeap ε} {e : ε} {i h fuel : ℕ} {M : Set ε}

omit [DecidableEq ε] in
theorem load_of_lt (hi : i < s.a) : s.load i = some (s.p i) :=
  if_pos hi

theorem store_of_lt (hi : i < s.a) : s.store i e = some (s.stored i e) :=
  if_pos hi

omit [DecidableEq ε] in
theorem elemGreater_iff {x y : ε} : s.elemGreater x y = true ↔ s.evTimeout y < s.evTimeout x :=
  Timeval.timercmp_gt

theorem key_stored : (s.stored i e).key = update s.key i (s.evTimeout e) := by
  funext j
  by_cases hj : j = i
  · subst hj
    simp [key, stored]
  · simp [key, stored, hj]

/-! ## The loops -/

/-- The hole is filled: the members are `M`, in heap order, and only their indices have changed. -/
structure Filled (s t : MinHeap ε) (e : ε) (M : Set ε) : Prop where
  n_eq : t.n = s.n
  a_eq : t.a = s.a
  evTimeout_eq : t.evTimeout = s.evTimeout
  indexed : Indexed t.n t.p t.minHeapIdx M
  ordered : Ordered t.n t.key
  frame : ∀ x ∉ M, x ≠ e → t.minHeapIdx x = s.minHeapIdx x

/-- Storing the entry in hand where it fits fills the hole. -/
theorem store_filled (hd : Displaced s.n s.p s.minHeapIdx h e M) (ho : Hole s.n s.key h)
    (ha : Above s.key h (s.evTimeout e)) (hb : Below s.n s.key h (s.evTimeout e))
    (hmem : e ∈ M ↔ h < s.n) (hcell : h < s.a) :
    ∃ t, s.store h e = some t ∧ Filled s t e M := by
  refine ⟨_, store_of_lt hcell, rfl, rfl, rfl, hd.indexed hmem, ?_, ?_⟩
  · rw [key_stored]
    exact ho.ordered ha hb
  · intro x _ hxe
    exact update_of_ne hxe ..

/-- What follows a copy of a member fills the hole as well. -/
theorem Filled.of_stored {q : ε} (hq : q ∈ M) (hf : Filled (s.stored i q) t e M) :
    Filled s t e M where
  n_eq := hf.n_eq
  a_eq := hf.a_eq
  evTimeout_eq := hf.evTimeout_eq
  indexed := hf.indexed
  ordered := hf.ordered
  frame x hx hxe := by
    have hxq : x ≠ q := fun heq => hx (heq ▸ hq)
    rw [hf.frame x hx hxe]
    exact update_of_ne hxq ..

/-- `min_heap_shift_up_` -/
theorem shiftUp_filled (hfuel : h < fuel) (hn : h < s.n) (hroom : s.n ≤ s.a) (he : e ∈ M)
    (hd : Displaced s.n s.p s.minHeapIdx h e M) (ho : Hole s.n s.key h)
    (hb : Below s.n s.key h (s.evTimeout e)) :
    ∃ t, shiftUp fuel s h e = some t ∧ Filled s t e M := by
  induction fuel generalizing s h with
  | zero => exact absurd hfuel (Nat.not_lt_zero h)
  | succ fuel ih =>
    rw [shiftUp]
    by_cases hz : h = 0
    · rw [if_pos hz]
      -- at the root nothing is above the hole
      have ha : Above s.key h (s.evTimeout e) := fun hpos => absurd hz hpos.ne'
      exact store_filled hd ho ha hb (iff_of_true he hn) (hn.trans_le hroom)
    · have hpos : 0 < h := Nat.pos_of_ne_zero hz
      have hlt : parent h < h := parent_lt hpos
      have hpn : parent h < s.n := hlt.trans hn
      rw [if_neg hz, load_of_lt (hpn.trans_le hroom)]
      by_cases hgt : s.elemGreater (s.p (parent h)) e = true
      · -- the parent comes down into the hole, which moves up
        have hx : s.evTimeout e < s.key (parent h) := elemGreater_iff.mp hgt
        simp only [Option.bind_eq_bind, Option.bind_some, hgt, if_true,
          store_of_lt (hn.trans_le hroom)]
        have hd' := hd.move hn hpn hlt.ne
        have ho' : Hole s.n (s.stored h (s.p (parent h))).key (parent h) := by
          rw [key_stored]
          exact ho.up hpos hn
        have hb' : Below s.n (s.stored h (s.p (parent h))).key (parent h) (s.evTimeout e) := by
          rw [key_stored]
          exact Below.up ho hpos hx
        obtain ⟨t, ht, hf⟩ := ih (s := s.stored h (s.p (parent h))) (by omega) hpn hroom hd' ho' hb'
        exact ⟨t, ht, hf.of_stored (hd.cell _ hpn hlt.ne).1⟩
      · simp only [Option.bind_eq_bind, Option.bind_some, if_neg hgt]
        have ha : Above s.key h (s.evTimeout e) := fun _ => not_lt.mp (mt elemGreater_iff.mpr hgt)
        exact store_filled hd ho ha hb (iff_of_true he hn) (hn.trans_le hroom)

/-- `min_heap_shift_up_unconditional_`, called where the time in hand is the lesser one. -/
theorem shiftUpUnconditional_filled (hpos : 0 < h) (hn : h < s.n) (hroom : s.n ≤ s.a) (he : e ∈ M)
    (hd : Displaced s.n s.p s.minHeapIdx h e M) (ho : Hole s.n s.key h)
    (hx : s.evTimeout e < s.key (parent h)) :
    ∃ t, shiftUpUnconditional s h e = some t ∧ Filled s t e M := by
  have hlt : parent h < h := parent_lt hpos
  have hpn : parent h < s.n := hlt.trans hn
  unfold shiftUpUnconditional
  rw [load_of_lt (hpn.trans_le hroom)]
  simp only [Option.bind_eq_bind, Option.bind_some, store_of_lt (hn.trans_le hroom)]
  have hd' := hd.move hn hpn hlt.ne
  have ho' : Hole s.n (s.stored h (s.p (parent h))).key (parent h) := by
    rw [key_stored]
    exact ho.up hpos hn
  have hb' : Below s.n (s.stored h (s.p (parent h))).key (parent h) (s.evTimeout e) := by
    rw [key_stored]
    exact Below.up ho hpos hx
  obtain ⟨t, ht, hf⟩ :=
    shiftUp_filled (s := s.stored h (s.p (parent h))) (Nat.lt_succ_of_lt hlt) hpn hroom he hd' ho'
      hb'
  exact ⟨t, ht, hf.of_stored (hd.cell _ hpn hlt.ne).1⟩

omit [DecidableEq ε] in
/-- The lesser child is a least position below the hole. -/
theorem lesserChild_spec (hroom : s.n ≤ s.a) (hle : 2 * (h + 1) ≤ s.n) :
    ∃ c, s.lesserChild (2 * (h + 1)) = some c ∧ 0 < c ∧ c < s.n ∧ parent c = h ∧
      ∀ i, 0 < i → i < s.n → parent i = h → s.key c ≤ s.key i := by
  unfold lesserChild
  by_cases hlast : 2 * (h + 1) = s.n
  · rw [if_pos hlast]
    -- there is a left child only
    refine ⟨_, rfl, by omega, by omega, (parent_eq_iff (by omega)).mpr (by omega), ?_⟩
    intro i hi hin hp
    have hil : i = 2 * (h + 1) - 1 := by
      have := (parent_eq_iff hi).mp hp
      omega
    rw [hil]
  · have hlt : 2 * (h + 1) < s.n := by omega
    rw [if_neg hlast, load_of_lt (hlt.trans_le hroom), load_of_lt (by omega)]
    by_cases hgt : s.elemGreater (s.p (2 * (h + 1))) (s.p (2 * (h + 1) - 1)) = true
    · have hless := elemGreater_iff.mp hgt
      refine ⟨2 * (h + 1) - 1, by simp [hgt], by omega, by omega,
        (parent_eq_iff (by omega)).mpr (by omega), ?_⟩
      intro i hi hin hp
      rcases (parent_eq_iff hi).mp hp with hil | hir
      · rw [hil]
        exact le_refl _
      · rw [hir]
        exact hless.le
    · have hless := not_lt.mp (mt elemGreater_iff.mpr hgt)
      refine ⟨2 * (h + 1), by simp [hgt], by omega, hlt,
        (parent_eq_iff (by omega)).mpr (by omega), ?_⟩
      intro i hi hin hp
      rcases (parent_eq_iff hi).mp hp with hil | hir
      · rw [hil]
        exact hless
      · rw [hir]
        exact le_refl _

/-- `min_heap_shift_down_` -/
theorem shiftDown_filled (hfuel : s.n < h + fuel) (hroom : s.n ≤ s.a) (hbound : s.n < 2 ^ 31)
    (hh : h + 1 < 2 ^ 31) (hcell : h < s.a) (hhn : h ≤ s.n) (hmem : e ∈ M ↔ h < s.n)
    (hd : Displaced s.n s.p s.minHeapIdx h e M) (ho : Hole s.n s.key h)
    (ha : Above s.key h (s.evTimeout e)) :
    ∃ t, shiftDown fuel s h e = some t ∧ Filled s t e M := by
  induction fuel generalizing s h with
  | zero => omega
  | succ fuel ih =>
    -- `2u * hole_index + 2u` does not wrap
    have hwrap : 2 * (h + 1) % 2 ^ 32 = 2 * (h + 1) := Nat.mod_eq_of_lt (by omega)
    rw [shiftDown]
    simp only [hwrap]
    by_cases hle : 2 * (h + 1) ≤ s.n
    · obtain ⟨c, hc, hcpos, hcn, hp, hleast⟩ := lesserChild_spec hroom hle
      have hlt : h < c := hp ▸ parent_lt hcpos
      have hn : h < s.n := hlt.trans hcn
      simp only [if_pos hle, hc, load_of_lt (hcn.trans_le hroom), Option.bind_eq_bind,
        Option.bind_some]
      by_cases hgt : s.elemGreater e (s.p c) = true
      · -- the lesser child comes up into the hole, which moves down
        have hx : s.key c < s.evTimeout e := elemGreater_iff.mp hgt
        simp only [hgt, if_true, store_of_lt hcell, Option.bind_some]
        have hd' := hd.move hn hcn hlt.ne'
        have ho' : Hole s.n (s.stored h (s.p c)).key c := by
          rw [key_stored]
          exact ho.down hcpos hcn hp hleast
        have ha' : Above (s.stored h (s.p c)).key c (s.evTimeout e) := by
          rw [key_stored]
          exact Above.down hp hx.le
        obtain ⟨t, ht, hf⟩ := ih (s := s.stored h (s.p c)) (hfuel.trans_le (by omega)) hroom
          hbound (by omega) (hcn.trans_le hroom) hcn.le (iff_of_true (hmem.mpr hn) hcn) hd' ho' ha'
        exact ⟨t, ht, hf.of_stored (hd.cell c hcn hlt.ne').1⟩
      · simp only [if_neg hgt]
        have hfit : s.evTimeout e ≤ s.key c := not_lt.mp (mt elemGreater_iff.mpr hgt)
        have hb : Below s.n s.key h (s.evTimeout e) :=
          fun i hi hin hpi => hfit.trans (hleast i hi hin hpi)
        exact store_filled hd ho ha hb hmem hcell
    · rw [if_neg hle]
      have hb : Below s.n s.key h (s.evTimeout e) := by
        intro i hi hin hpi
        -- the hole has no child
        have := (parent_eq_iff hi).mp hpi
        omega
      exact store_filled hd ho ha hb hmem hcell

/-- `shift`, from any hole whose position above fits if the hole is past the end. -/
theorem shift_filled (hroom : s.n ≤ s.a) (hbound : s.n < 2 ^ 31) (hh : h + 1 < 2 ^ 31)
    (hcell : h < s.a) (hhn : h ≤ s.n) (hmem : e ∈ M ↔ h < s.n)
    (hd : Displaced s.n s.p s.minHeapIdx h e M) (ho : Hole s.n s.key h)
    (hend : h = s.n → Above s.key h (s.evTimeout e)) :
    ∃ t, s.shift h e = some t ∧ Filled s t e M := by
  have hfuel : s.n < h + (s.n + 1) := by omega
  unfold shift
  by_cases hpos : h > 0
  · have hpa : parent h < s.a := (parent_lt hpos).trans hcell
    simp only [if_pos hpos, load_of_lt hpa, Option.bind_eq_bind, Option.bind_some]
    by_cases hgt : s.elemGreater (s.p (parent h)) e = true
    · rw [if_pos hgt]
      have hx : s.evTimeout e < s.key (parent h) := elemGreater_iff.mp hgt
      -- behind the last entry the event would stand where it stood, below its parent
      have hn : h < s.n := by
        refine lt_of_le_of_ne hhn fun heq => ?_
        exact absurd hx (not_lt.mpr (hend heq hpos))
      exact shiftUpUnconditional_filled hpos hn hroom (hmem.mpr hn) hd ho hx
    · rw [if_neg hgt]
      have ha : Above s.key h (s.evTimeout e) := fun _ => not_lt.mp (mt elemGreater_iff.mpr hgt)
      exact shiftDown_filled hfuel hroom hbound hh hcell hhn hmem hd ho ha
  · rw [if_neg hpos]
    have ha : Above s.key h (s.evTimeout e) := fun hh => absurd hh hpos
    exact shiftDown_filled hfuel hroom hbound hh hcell hhn hmem hd ho ha

/-! ## The operations -/

/-- A heap that holds exactly the events `M`. -/
structure Wf (s : MinHeap ε) (M : Set ε) : Prop where
  room : s.n ≤ s.a
  bound : s.n < 2 ^ 31
  indexed : Indexed s.n s.p s.minHeapIdx M
  ordered : Ordered s.n s.key
  other : ∀ x ∉ M, s.minHeapIdx x = -1

omit [DecidableEq ε] in
theorem ctor_wf (p : ℕ → ε) (evTimeout : ε → Timeval) : Wf (ctor p evTimeout) ∅ where
  room := le_refl 0
  bound := Nat.two_pow_pos 31
  indexed := ⟨fun i hi => absurd hi (Nat.not_lt_zero i), fun _ he => he.elim⟩
  ordered i _ hin := absurd hin (Nat.not_lt_zero i)
  other _ _ := rfl

omit [DecidableEq ε] in
/-- An event is in the heap exactly if it has an index. -/
theorem Wf.idx_ne_iff (hw : Wf s M) : s.minHeapIdx e ≠ -1 ↔ e ∈ M := by
  refine ⟨fun hne => by_contra fun he => hne (hw.other e he), fun he => ?_⟩
  obtain ⟨i, -, -, hi⟩ := hw.indexed.pos_eq he
  omega

omit [DecidableEq ε] in
theorem Wf.n_eq_zero_iff (hw : Wf s M) : s.n = 0 ↔ M = ∅ := by
  constructor
  · intro hn
    refine Set.eq_empty_of_forall_notMem fun x hx => ?_
    obtain ⟨i, hi, -⟩ := hw.indexed.member x hx
    omega
  · intro hM
    by_contra hn
    have hroot := (hw.indexed.cell 0 (Nat.pos_of_ne_zero hn)).1
    rw [hM] at hroot
    exact hroot

omit [DecidableEq ε] in
theorem Wf.root_le (hw : Wf s M) {x : ε} (hx : x ∈ M) : s.evTimeout (s.p 0) ≤ s.evTimeout x := by
  obtain ⟨i, hi, rfl⟩ := hw.indexed.member x hx
  exact hw.ordered.root_le hi

omit [DecidableEq ε] in
/-- `min_heap_top_` is an event of the earliest time. -/
theorem Wf.top_eq_some (hw : Wf s M) (htop : s.top = some e) :
    e ∈ M ∧ ∀ x ∈ M, s.evTimeout e ≤ s.evTimeout x := by
  unfold top at htop
  split at htop
  · cases htop
  · rename_i hn
    obtain rfl : s.p 0 = e := by simpa using htop
    exact ⟨(hw.indexed.cell 0 (Nat.pos_of_ne_zero hn)).1, fun x hx => hw.root_le hx⟩

omit [DecidableEq ε] in
theorem Wf.top_eq_none (hw : Wf s M) : s.top = none ↔ M = ∅ := by
  rw [← hw.n_eq_zero_iff]
  unfold top
  split <;> simp_all

omit [DecidableEq ε] in
/-- `min_heap_reserve_` makes the room asked for, or changes nothing. -/
theorem reserve_cases (n : ℕ) (realloc : Bool) :
    (∃ a, s.reserve n realloc = ({ s with a := a }, 0) ∧ n ≤ a ∧ s.a ≤ a) ∨
      s.reserve n realloc = (s, -1) ∧ s.a < n ∧ realloc = false := by
  unfold reserve
  by_cases hlt : s.a < n
  · simp only [if_pos hlt]
    cases realloc with
    | false => exact .inr ⟨rfl, hlt, rfl⟩
    | true =>
      refine .inl ⟨_, rfl, ?_, ?_⟩ <;> split <;> split <;> omega
  · rw [if_neg hlt]
    exact .inl ⟨s.a, rfl, by omega, le_refl _⟩

/-- The new event moves up from the end. -/
theorem Wf.shiftUp_filled (hw : Wf s M) (he : e ∉ M) {a : ℕ} (ha : s.n + 1 ≤ a) :
    ∃ t, shiftUp (s.n + 1) { s with n := s.n + 1, a := a } s.n e = some t ∧
      Filled { s with n := s.n + 1, a := a } t e (insert e M) := by
  have hd : Displaced (s.n + 1) s.p s.minHeapIdx s.n e (insert e M) := hw.indexed.grow he
  have hend : ∀ i, 0 < i → i < s.n + 1 → parent i ≠ s.n := by
    intro i hi hin
    have := parent_lt hi
    omega
  have hb : Below (s.n + 1) s.key s.n (s.evTimeout e) :=
    fun i hi hin hp => absurd hp (hend i hi hin)
  have ho : Hole (s.n + 1) s.key s.n :=
    ⟨fun i hi hin hih _ => hw.ordered i hi (by omega),
      fun _ i hi hin hp => absurd hp (hend i hi hin)⟩
  exact MinHeap.shiftUp_filled (Nat.lt_succ_self s.n) (Nat.lt_succ_self s.n) ha (Or.inl rfl) hd ho
    hb

/-- `min_heap_push_`, of an event that is not in the heap. -/
theorem Wf.push (hw : Wf s M) (he : e ∉ M) (hn : s.n + 1 < 2 ^ 31) (realloc : Bool) :
    (∃ t, s.push e realloc = some (t, 0) ∧ Wf t (insert e M) ∧ t.evTimeout = s.evTimeout ∧
        t.n = s.n + 1) ∨
      s.push e realloc = some (s, -1) ∧ s.a = s.n ∧ realloc = false := by
  have hwrap : (s.n + 1) % 2 ^ 32 = s.n + 1 := Nat.mod_eq_of_lt (by omega)
  unfold MinHeap.push
  rw [hwrap]
  rcases s.reserve_cases (s.n + 1) realloc with ⟨a, hres, hroom, -⟩ | ⟨hres, hfull, hre⟩
  · obtain ⟨t, ht, hf⟩ := hw.shiftUp_filled he hroom
    refine .inl ⟨t, by simp [hres, ht], ⟨?_, ?_, hf.indexed, hf.ordered, ?_⟩, hf.evTimeout_eq,
      hf.n_eq⟩
    · rw [hf.n_eq, hf.a_eq]
      exact hroom
    · rw [hf.n_eq]
      exact hn
    · intro x hx
      -- events that are in no heap keep the index -1
      have hxM : x ∉ M := fun h => hx (Or.inr h)
      rw [hf.frame x hx fun h => hx (Or.inl h)]
      exact hw.other x hxM
  · have hroom := hw.room
    exact .inr ⟨by simp [hres], by omega, hre⟩

/-- The entry at `h` is replaced by the last one and its event leaves the heap. -/
theorem Wf.shift_filled (hw : Wf s M) (hh : h < s.n) :
    ∃ t, shift { s with n := s.n - 1 } h (s.p (s.n - 1)) = some t ∧
      Filled { s with n := s.n - 1 } t (s.p (s.n - 1)) (M \ {s.p h}) := by
  obtain ⟨n, hn⟩ : ∃ n, s.n = n + 1 := ⟨s.n - 1, by omega⟩
  have hix : Indexed (n + 1) s.p s.minHeapIdx M := hn ▸ hw.indexed
  have hord : Ordered (n + 1) s.key := hn ▸ hw.ordered
  have hroom := hw.room
  have hbound := hw.bound
  have hhn : h < n + 1 := hn ▸ hh
  have hmem : s.p n ∈ M \ {s.p h} ↔ h < n := by
    constructor
    · intro hlast
      refine lt_of_le_of_ne (Nat.le_of_lt_succ hhn) fun heq => ?_
      exact hlast.2 (heq ▸ rfl)
    · intro hlt
      exact ⟨(hix.cell n (Nat.lt_succ_self n)).1,
        fun heq => hlt.ne' (hix.inj (Nat.lt_succ_self n) hhn heq)⟩
  -- the last entry is taken out itself, and stood below its parent already
  have hend : h = n → Above s.key h (s.key n) := by
    intro heq hpos
    subst heq
    exact hord h hpos (Nat.lt_succ_self h)
  have hna : n ≤ s.a := by omega
  have hha : h < s.a := by omega
  have hn' : n < 2 ^ 31 := by omega
  have hh' : h + 1 < 2 ^ 31 := by omega
  rw [hn, Nat.add_sub_cancel]
  exact MinHeap.shift_filled hna hn' hh' hha (Nat.le_of_lt_succ hhn) hmem (hix.cut hhn)
    ((hord.mono (Nat.le_succ n)).hole h) hend

/-- Forgetting the index of the event that has left makes the heap whole again. -/
theorem Wf.elemInit (hw : Wf s M) {last : ε} (hlast : last ∈ M)
    (hf : Filled { s with n := s.n - 1 } t last (M \ {e})) : Wf (t.elemInit e) (M \ {e}) where
  room := by
    have hroom := hw.room
    rw [show (t.elemInit e).n = s.n - 1 from hf.n_eq, show (t.elemInit e).a = s.a from hf.a_eq]
    omega
  bound := by
    have hbound := hw.bound
    rw [show (t.elemInit e).n = s.n - 1 from hf.n_eq]
    omega
  indexed := by
    refine ⟨fun i hi => ?_, fun x hx => hf.indexed.member x hx⟩
    obtain ⟨hmem, hpos⟩ := hf.indexed.cell i hi
    exact ⟨hmem, (update_of_ne hmem.2 ..).trans hpos⟩
  ordered := hf.ordered
  other x hx := by
    by_cases hxe : x = e
    · subst hxe
      exact update_self ..
    · have hxM : x ∉ M := fun h => hx ⟨h, hxe⟩
      have hxl : x ≠ last := fun h => hxM (h ▸ hlast)
      exact (update_of_ne hxe ..).trans ((hf.frame x hx hxl).trans (hw.other x hxM))

/-- `min_heap_erase_` of an event in the heap. -/
theorem Wf.erase (hw : Wf s M) (he : e ∈ M) :
    ∃ t, s.erase e = some (t, 0) ∧ Wf t (M \ {e}) ∧ t.evTimeout = s.evTimeout ∧ t.n + 1 = s.n ∧
      t.a = s.a := by
  obtain ⟨h, hh, hpe, hidx⟩ := hw.indexed.pos_eq he
  obtain ⟨t, ht, hf⟩ := hw.shift_filled hh
  have hlast : s.n - 1 < s.a := by
    have := hw.room
    omega
  have hmem : s.p (s.n - 1) ∈ M := (hw.indexed.cell (s.n - 1) (by omega)).1
  rw [hpe] at hf
  refine ⟨t.elemInit e, ?_, hw.elemInit hmem hf, hf.evTimeout_eq, ?_, hf.a_eq⟩
  · unfold MinHeap.erase
    simp [load, hlast, hidx, ht]
  · have : (t.elemInit e).n = s.n - 1 := hf.n_eq
    omega

/-- `min_heap_erase_` of an event that is not in the heap. -/
theorem Wf.erase_of_notMem (hw : Wf s M) (he : e ∉ M) : s.erase e = some (s, -1) := by
  unfold MinHeap.erase
  rw [if_neg (mt hw.idx_ne_iff.mp he)]

/-- `min_heap_pop_` takes out an event of the earliest time. -/
theorem Wf.pop (hw : Wf s M) (hM : M.Nonempty) :
    ∃ t e, s.pop = some (t, some e) ∧ e ∈ M ∧ (∀ x ∈ M, s.evTimeout e ≤ s.evTimeout x) ∧
      Wf t (M \ {e}) ∧ t.evTimeout = s.evTimeout := by
  have hn : s.n ≠ 0 := fun h => hM.ne_empty (hw.n_eq_zero_iff.mp h)
  have hpos : 0 < s.n := Nat.pos_of_ne_zero hn
  obtain ⟨t, ht, hf⟩ := hw.shift_filled hpos
  have hroom := hw.room
  have hmem : s.p (s.n - 1) ∈ M := (hw.indexed.cell (s.n - 1) (by omega)).1
  refine ⟨t.elemInit (s.p 0), s.p 0, ?_, (hw.indexed.cell 0 hpos).1, fun x hx => hw.root_le hx,
    hw.elemInit hmem hf, hf.evTimeout_eq⟩
  have hdown : shiftDown (s.n - 1 + 1) { s with n := s.n - 1 } 0 (s.p (s.n - 1)) = some t := by
    simpa [shift] using ht
  have h0 : 0 < s.a := by omega
  have hlast : s.n - 1 < s.a := by omega
  unfold MinHeap.pop
  simp [hn, load, h0, hlast, hdown]

/-- `min_heap_adjust_` of an event in the heap whose time has been changed. -/
theorem Wf.adjust (hw : Wf s M) (he : e ∈ M) (tv : Timeval) (realloc : Bool) :
    ∃ t, (s.setTimeout e tv).adjust e realloc = some (t, 0) ∧ Wf t M ∧
      t.evTimeout = update s.evTimeout e tv := by
  obtain ⟨h, hh, hpe, hidx⟩ := hw.indexed.pos_eq he
  have hroom := hw.room
  have hbound := hw.bound
  have hd : Displaced s.n s.p s.minHeapIdx h e M := hpe ▸ hw.indexed.lift hh
  -- the new time concerns one cell only, so the others are in order around it
  have hoff : ∀ i, i ≠ h → i < s.n → (s.setTimeout e tv).key i = s.key i := by
    intro i hih hin
    have hne : s.p i ≠ e := fun heq => hih (hw.indexed.inj hin hh (heq.trans hpe.symm))
    exact update_of_ne hne ..
  have ho : Hole s.n (s.setTimeout e tv).key h := (hw.ordered.hole h).congr hoff
  obtain ⟨t, ht, hf⟩ := MinHeap.shift_filled (s := s.setTimeout e tv) hroom hbound (by omega)
    (hh.trans_le hroom) hh.le (iff_of_true he hh) hd ho fun heq => absurd heq hh.ne
  refine ⟨t, ?_, ⟨?_, ?_, hf.indexed, hf.ordered, ?_⟩, hf.evTimeout_eq⟩
  · have hidx' : (s.setTimeout e tv).minHeapIdx e = h := hidx
    unfold MinHeap.adjust
    simp [hidx', ht]
  · rw [hf.n_eq, hf.a_eq]
    exact hroom
  · rw [hf.n_eq]
    exact hbound
  · intro x hx
    have hxe : x ≠ e := fun heq => hx (heq ▸ he)
    exact (hf.frame x hx hxe).trans (hw.other x hx)

/-- Changing the time of an event outside the heap leaves the heap as it is. -/
theorem Wf.setTimeout (hw : Wf s M) (he : e ∉ M) (tv : Timeval) : Wf (s.setTimeout e tv) M where
  room := hw.room
  bound := hw.bound
  indexed := hw.indexed
  ordered i hi hin := by
    have hkey : ∀ j < s.n, (s.setTimeout e tv).key j = s.key j := by
      intro j hj
      have hne : s.p j ≠ e := fun heq => he (heq ▸ (hw.indexed.cell j hj).1)
      exact update_of_ne hne ..
    rw [hkey i hin, hkey _ ((parent_lt hi).trans hin)]
    exact hw.ordered i hi hin
  other := hw.other

end MinHeap

end ReechatBase.Libevent
