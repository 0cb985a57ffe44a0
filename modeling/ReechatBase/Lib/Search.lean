import Mathlib.Data.List.Basic
import Mathlib.Data.List.Infix
import Mathlib.Tactic.Common

/-!
# Searching a list for a pattern

The first occurrence of a pattern in a list, and what a search that was in vain leaves to be
searched when the list grows at its end.

- `search_eq_some_iff`: the result is the first occurrence;
- `search_resume`: a search in vain is resumed so far before the old end that an occurrence across
  it is found;
- `search_resume_end_iff`: resumed at the old end, it misses exactly such an occurrence.

Nothing here refers to a particular program.
-/

namespace ReechatBase.Lib

variable {α : Type*} {pat xs ys : List α} {i k : ℕ}

/-- The pattern occurs in the list at position `i`. -/
def OccursAt (pat xs : List α) (i : ℕ) : Prop := i ≤ xs.length ∧ pat <+: xs.drop i

namespace OccursAt

theorem add_length_le (h : OccursAt pat xs i) : i + pat.length ≤ xs.length := by
  have hle : pat.length ≤ (xs.drop i).length := h.2.length_le
  rw [List.length_drop] at hle
  have hi := h.1
  omega

/-- An occurrence that ends in the old part was there before. -/
theorem of_append (h : OccursAt pat (xs ++ ys) i) (hle : i + pat.length ≤ xs.length) :
    OccursAt pat xs i := by
  have hi : i ≤ xs.length := Nat.le_of_add_right_le hle
  refine ⟨hi, ?_⟩
  have hpre := h.2
  rw [List.drop_append_of_le_length hi] at hpre
  apply List.prefix_of_prefix_length_le hpre (List.prefix_append _ _)
  rw [List.length_drop]
  omega

theorem drop_iff (hk : k ≤ xs.length) : OccursAt pat (xs.drop k) i ↔ OccursAt pat xs (k + i) := by
  simp only [OccursAt, List.length_drop, List.drop_drop]
  constructor
  · rintro ⟨hle, hpre⟩
    exact ⟨by omega, hpre⟩
  · rintro ⟨hle, hpre⟩
    exact ⟨by omega, hpre⟩

end OccursAt

theorem occursAt_zero : OccursAt pat xs 0 ↔ pat <+: xs := by
  simp [OccursAt]

theorem occursAt_succ {x : α} : OccursAt pat (x :: xs) (i + 1) ↔ OccursAt pat xs i := by
  simp [OccursAt]

variable [DecidableEq α]

/-- The first position at which the pattern occurs. -/
def search (pat : List α) : List α → Option ℕ
  | [] => if pat = [] then some 0 else none
  | x :: xs => if pat <+: x :: xs then some 0 else (search pat xs).map (· + 1)

/-- **The result of a search is the first occurrence.** -/
theorem search_eq_some_iff :
    search pat xs = some i ↔ OccursAt pat xs i ∧ ∀ j < i, ¬ OccursAt pat xs j := by
  induction xs generalizing i with
  | nil =>
    cases i with
    | zero => simp [search, occursAt_zero]
    | succ i => simp [search, OccursAt]
  | cons x xs ih =>
    rw [search]
    by_cases hpre : pat <+: x :: xs
    · rw [if_pos hpre, Option.some_inj]
      constructor
      · rintro rfl
        exact ⟨occursAt_zero.mpr hpre, fun j hj => absurd hj (Nat.not_lt_zero j)⟩
      · rintro ⟨-, hfirst⟩
        by_contra hne
        exact hfirst 0 (Nat.pos_of_ne_zero (Ne.symm hne)) (occursAt_zero.mpr hpre)
    · rw [if_neg hpre, Option.map_eq_some_iff]
      constructor
      · rintro ⟨i, hi, rfl⟩
        obtain ⟨hocc, hfirst⟩ := ih.mp hi
        refine ⟨occursAt_succ.mpr hocc, fun j hj hocc' => ?_⟩
        cases j with
        | zero => exact hpre (occursAt_zero.mp hocc')
        | succ j => exact hfirst j (Nat.lt_of_succ_lt_succ hj) (occursAt_succ.mp hocc')
      · rintro ⟨hocc, hfirst⟩
        cases i with
        | zero => exact absurd (occursAt_zero.mp hocc) hpre
        | succ i =>
          refine ⟨i, ih.mpr ⟨occursAt_succ.mp hocc, fun j hj hocc' => ?_⟩, rfl⟩
          exact hfirst (j + 1) (Nat.succ_lt_succ hj) (occursAt_succ.mpr hocc')

theorem search_eq_none_iff : search pat xs = none ↔ ∀ i, ¬ OccursAt pat xs i := by
  constructor
  · intro hnone i
    -- otherwise there is a first occurrence
    induction i using Nat.strong_induction_on with
    | _ i ih =>
      intro hocc
      have hsome := search_eq_some_iff.mpr ⟨hocc, ih⟩
      rw [hnone] at hsome
      cases hsome
  · intro hno
    cases h : search pat xs with
    | none => rfl
    | some i => exact absurd (search_eq_some_iff.mp h).1 (hno i)

theorem le_length_of_search (h : search pat xs = some i) : i ≤ xs.length :=
  (search_eq_some_iff.mp h).1.1

/-- A prefix in which no occurrence begins may be skipped. -/
theorem search_drop (hk : k ≤ xs.length) (hno : ∀ i < k, ¬ OccursAt pat xs i) :
    search pat xs = (search pat (xs.drop k)).map (k + ·) := by
  cases h : search pat (xs.drop k) with
  | none =>
    rw [Option.map_none, search_eq_none_iff]
    intro i hocc
    rcases Nat.lt_or_ge i k with hlt | hge
    · exact hno i hlt hocc
    · obtain ⟨j, rfl⟩ := Nat.exists_eq_add_of_le hge
      exact search_eq_none_iff.mp h j ((OccursAt.drop_iff hk).mpr hocc)
  | some i =>
    obtain ⟨hocc, hfirst⟩ := search_eq_some_iff.mp h
    rw [Option.map_some, search_eq_some_iff]
    refine ⟨(OccursAt.drop_iff hk).mp hocc, fun j hj hocc' => ?_⟩
    rcases Nat.lt_or_ge j k with hlt | hge
    · exact hno j hlt hocc'
    · obtain ⟨m, rfl⟩ := Nat.exists_eq_add_of_le hge
      exact hfirst m (Nat.lt_of_add_lt_add_left hj) ((OccursAt.drop_iff hk).mpr hocc')

/-- **Resuming a search.** After a search in vain, and whatever is appended, the search goes on
    where an occurrence can begin that was not complete. -/
theorem search_resume (hnone : search pat xs = none) (hk : k ≤ xs.length)
    (hlate : ∀ i < k, i + pat.length ≤ xs.length) :
    search pat (xs ++ ys) = (search pat ((xs ++ ys).drop k)).map (k + ·) := by
  apply search_drop
  · rw [List.length_append]
    exact Nat.le_add_right_of_le hk
  · intro i hi hocc
    exact search_eq_none_iff.mp hnone i (hocc.of_append (hlate i hi))

/-- Resumed at the old end, it misses an occurrence that begins before, and nothing else. -/
theorem search_resume_end_iff :
    search pat (xs ++ ys) = (search pat ys).map (xs.length + ·) ↔
      ∀ i < xs.length, ¬ OccursAt pat (xs ++ ys) i := by
  constructor
  · intro heq i hi hocc
    cases h : search pat ys with
    | none =>
      rw [h, Option.map_none, search_eq_none_iff] at heq
      exact heq i hocc
    | some j =>
      rw [h, Option.map_some, search_eq_some_iff] at heq
      exact heq.2 i (Nat.lt_add_right j hi) hocc
  · intro hno
    have hle : xs.length ≤ (xs ++ ys).length := by simp
    rw [search_drop hle hno, List.drop_left]

end ReechatBase.Lib
