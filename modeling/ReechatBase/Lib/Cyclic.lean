import Mathlib.Data.List.Range
import Mathlib.Tactic.Common

/-!
# Cyclic storage

Positions of an endless stream are kept in the cells of a finite array: position `p` lives in
cell `p % cap`. A window of at most `cap` positions can be read back as long as nothing is
stored into its cells.

- `window cells cap p n`: the `n` elements from stream position `p` on;
- `span cells i n`: the `n` elements from cell `i` on;
- `storeAt cells i xs`: the cells after `xs` has been copied to cell `i`.
-/

namespace ReechatBase.Lib.Cyclic

variable {α : Type*}

/-! ## Contiguous spans -/

/-- The `n` elements from cell `i` on. -/
def span (cells : ℕ → α) (i n : ℕ) : List α :=
  (List.range n).map fun j => cells (i + j)

/-- The cells after `xs` has been copied to cell `i` and the ones behind it. -/
def storeAt (cells : ℕ → α) (i : ℕ) (xs : List α) : ℕ → α :=
  fun j => if i ≤ j then (xs[j - i]?).getD (cells j) else cells j

@[simp] theorem length_span (cells : ℕ → α) (i n : ℕ) : (span cells i n).length = n := by
  simp [span]

@[simp] theorem span_zero (cells : ℕ → α) (i : ℕ) : span cells i 0 = [] := rfl

theorem span_succ (cells : ℕ → α) (i n : ℕ) :
    span cells i (n + 1) = cells i :: span cells (i + 1) n := by
  simp only [span, List.range_succ_eq_map, List.map_cons, List.map_map]
  congr 1
  exact List.map_congr_left fun j _ => congrArg cells (by simp only [Nat.succ_eq_add_one]; omega)

theorem span_add (cells : ℕ → α) (i m n : ℕ) :
    span cells i (m + n) = span cells i m ++ span cells (i + m) n := by
  simp only [span, List.range_add, List.map_append, List.map_map]
  congr 1
  exact List.map_congr_left fun j _ => by simp [Nat.add_assoc]

theorem take_span (cells : ℕ → α) (i : ℕ) {m n : ℕ} (h : m ≤ n) :
    (span cells i n).take m = span cells i m := by
  obtain ⟨d, rfl⟩ := Nat.exists_eq_add_of_le h
  rw [span_add, List.take_left' (by simp)]

theorem drop_span (cells : ℕ → α) (i : ℕ) {m n : ℕ} (h : m ≤ n) :
    (span cells i n).drop m = span cells (i + m) (n - m) := by
  obtain ⟨d, rfl⟩ := Nat.exists_eq_add_of_le h
  rw [span_add, List.drop_left' (by simp), Nat.add_sub_cancel_left]

@[simp] theorem storeAt_nil (cells : ℕ → α) (i : ℕ) : storeAt cells i [] = cells := by
  funext j
  simp [storeAt]

theorem storeAt_cons (cells : ℕ → α) (i : ℕ) (x : α) (xs : List α) :
    storeAt cells i (x :: xs) = storeAt (Function.update cells i x) (i + 1) xs := by
  funext j
  simp only [storeAt]
  rcases Nat.lt_trichotomy j i with hlt | rfl | hgt
  · -- before the block, at its first cell, or behind that one
    rw [if_neg (by omega), if_neg (by omega), Function.update_of_ne (by omega)]
  · simp
  · obtain ⟨d, rfl⟩ : ∃ d, j = i + 1 + d := ⟨j - i - 1, by omega⟩
    rw [if_pos (by omega), if_pos (by omega), Function.update_of_ne (by omega),
      show i + 1 + d - i = d + 1 by omega, show i + 1 + d - (i + 1) = d by omega]
    simp

/-- A cell outside the copied range keeps its content. -/
theorem storeAt_of_outside {cells : ℕ → α} {i j : ℕ} {xs : List α}
    (h : j < i ∨ i + xs.length ≤ j) : storeAt cells i xs j = cells j := by
  simp only [storeAt]
  split
  · rw [List.getElem?_eq_none (by omega)]
    rfl
  · rfl

theorem storeAt_of_inside {cells : ℕ → α} {i j : ℕ} {xs : List α} (hj : j < xs.length) :
    storeAt cells i xs (i + j) = xs[j] := by
  simp [storeAt, hj]

/-- What has been copied can be read back. -/
theorem span_storeAt (cells : ℕ → α) (i : ℕ) (xs : List α) :
    span (storeAt cells i xs) i xs.length = xs := by
  apply List.ext_getElem (by simp)
  intro j hj₁ hj₂
  simp only [span, List.getElem_map, List.getElem_range]
  exact storeAt_of_inside hj₂

theorem span_congr {cells cells' : ℕ → α} {i n : ℕ}
    (h : ∀ j < n, cells (i + j) = cells' (i + j)) : span cells i n = span cells' i n :=
  List.map_congr_left fun j hj => h j (List.mem_range.mp hj)

/-! ## Windows of the stream -/

/-- The `n` elements from stream position `p` on. -/
def window (cells : ℕ → α) (cap p n : ℕ) : List α :=
  (List.range n).map fun j => cells ((p + j) % cap)

@[simp] theorem length_window (cells : ℕ → α) (cap p n : ℕ) :
    (window cells cap p n).length = n := by
  simp [window]

@[simp] theorem window_zero (cells : ℕ → α) (cap p : ℕ) : window cells cap p 0 = [] := rfl

@[simp] theorem getElem_window (cells : ℕ → α) (cap p n j : ℕ)
    (hj : j < (window cells cap p n).length) :
    (window cells cap p n)[j] = cells ((p + j) % cap) := by
  simp [window]

theorem window_add (cells : ℕ → α) (cap p m n : ℕ) :
    window cells cap p (m + n) = window cells cap p m ++ window cells cap (p + m) n := by
  simp only [window, List.range_add, List.map_append, List.map_map]
  congr 1
  exact List.map_congr_left fun j _ => by simp [Nat.add_assoc]

theorem take_window (cells : ℕ → α) (cap p : ℕ) {m n : ℕ} (h : m ≤ n) :
    (window cells cap p n).take m = window cells cap p m := by
  obtain ⟨d, rfl⟩ := Nat.exists_eq_add_of_le h
  rw [window_add, List.take_left' (by simp)]

theorem drop_window (cells : ℕ → α) (cap p : ℕ) {m n : ℕ} (h : m ≤ n) :
    (window cells cap p n).drop m = window cells cap (p + m) (n - m) := by
  obtain ⟨d, rfl⟩ := Nat.exists_eq_add_of_le h
  rw [window_add, List.drop_left' (by simp), Nat.add_sub_cancel_left]

theorem window_congr {cells cells' : ℕ → α} {cap p n : ℕ}
    (h : ∀ j < n, cells ((p + j) % cap) = cells' ((p + j) % cap)) :
    window cells cap p n = window cells' cap p n :=
  List.map_congr_left fun j hj => h j (List.mem_range.mp hj)

/-- A window depends on its position only up to multiples of the capacity. -/
theorem window_congr_mod {cells : ℕ → α} {cap p q n : ℕ} (h : p % cap = q % cap) :
    window cells cap p n = window cells cap q n := by
  apply List.map_congr_left
  intro j _
  rw [Nat.add_mod p, h, ← Nat.add_mod]

/-- A position near `p` that is still before the end of the array. -/
theorem add_mod_of_lt {cap p j : ℕ} (h : p % cap + j < cap) : (p + j) % cap = p % cap + j := by
  rw [← Nat.mod_add_mod, Nat.mod_eq_of_lt h]

/-- A position near `p` that is past the end of the array: it has wrapped to the front. -/
theorem add_mod_of_ge {cap p j : ℕ} (hge : cap ≤ p % cap + j) (hlt : p % cap + j < 2 * cap) :
    (p + j) % cap = p % cap + j - cap := by
  rw [← Nat.mod_add_mod, Nat.mod_eq_sub_mod hge, Nat.mod_eq_of_lt (by omega)]

/-- A window that does not cross the end of the array is a span. -/
theorem window_eq_span {cells : ℕ → α} {cap p n : ℕ} (h : p % cap + n ≤ cap) :
    window cells cap p n = span cells (p % cap) n := by
  apply List.map_congr_left
  intro j hj
  rw [add_mod_of_lt (by have := List.mem_range.mp hj; omega)]

/-- Two positions less than `cap` apart live in different cells. -/
theorem mod_ne_mod {cap p q : ℕ} (hlt : p < q) (hcap : q < p + cap) : p % cap ≠ q % cap := by
  intro h
  -- equal remainders would make `cap` divide the distance
  obtain ⟨d, rfl⟩ := Nat.exists_eq_add_of_lt hlt
  have hdvd : cap ∣ d + 1 := by
    have := Nat.sub_mod_eq_zero_of_mod_eq h.symm
    rwa [show p + d + 1 - p = d + 1 by omega, ← Nat.dvd_iff_mod_eq_zero] at this
  exact absurd (Nat.le_of_dvd (by omega) hdvd) (by omega)

/-! ## Storing a block of the stream -/

/-- The cells after `xs` has been stored at stream position `p`: in one piece when it fits
    before the end of the array, else in two. -/
def store (cells : ℕ → α) (cap p : ℕ) (xs : List α) : ℕ → α :=
  if p % cap + xs.length ≤ cap then
    storeAt cells (p % cap) xs
  else
    storeAt (storeAt cells (p % cap) (xs.take (cap - p % cap))) 0 (xs.drop (cap - p % cap))

/-- A cell that none of the stored positions uses keeps its content. -/
theorem store_of_ne {cells : ℕ → α} {cap p i : ℕ} {xs : List α} (hlen : xs.length ≤ cap)
    (h : ∀ j < xs.length, i ≠ (p + j) % cap) : store cells cap p xs i = cells i := by
  rcases Nat.eq_zero_or_pos cap with rfl | hpos
  · obtain rfl : xs = [] := List.length_eq_zero_iff.mp (by omega)
    simp [store]
  have hidx := Nat.mod_lt p hpos
  -- the stored cells are exactly those from the index on, and the front part after the end
  have htail : ∀ j, p % cap + j < cap → j < xs.length → i ≠ p % cap + j := by
    intro j hj hjx
    rw [← add_mod_of_lt hj]
    exact h j hjx
  have hfront : ∀ j, j + cap < p % cap + xs.length → i ≠ j := by
    intro j hj
    have hmod : (p + (j + cap - p % cap)) % cap = j := by
      rw [add_mod_of_ge (by omega) (by omega)]
      omega
    rw [← hmod]
    exact h _ (by omega)
  simp only [store]
  split
  · next hfit =>
    apply storeAt_of_outside
    by_contra hin
    exact htail (i - p % cap) (by omega) (by omega) (by omega)
  · next hfit =>
    rw [storeAt_of_outside, storeAt_of_outside]
    · by_contra hin
      rw [List.length_take] at hin
      exact htail (i - p % cap) (by omega) (by omega) (by omega)
    · by_contra hin
      rw [List.length_drop] at hin
      exact hfront i (by omega) rfl

/-- What has been stored at a stream position can be read back from there. -/
theorem window_store {cells : ℕ → α} {cap p : ℕ} {xs : List α} (hlen : xs.length ≤ cap) :
    window (store cells cap p xs) cap p xs.length = xs := by
  rcases Nat.eq_zero_or_pos cap with rfl | hpos
  · obtain rfl : xs = [] := List.length_eq_zero_iff.mp (by omega)
    rfl
  have hidx := Nat.mod_lt p hpos
  simp only [store]
  split
  · next hfit => rw [window_eq_span hfit, span_storeAt]
  · next hfit =>
    -- the block is read back in the two pieces in which it was stored
    have htake : (xs.take (cap - p % cap)).length = cap - p % cap := by
      rw [List.length_take]
      omega
    have hdrop : (xs.drop (cap - p % cap)).length = xs.length - (cap - p % cap) :=
      List.length_drop
    have hwrap : (p + (cap - p % cap)) % cap = 0 := by
      rw [add_mod_of_ge (by omega) (by omega)]
      omega
    rw [show xs.length = (cap - p % cap) + (xs.length - (cap - p % cap)) by omega, window_add]
    conv_rhs => rw [← List.take_append_drop (cap - p % cap) xs]
    congr 1
    · -- the first piece: the second one was stored at the front, before it
      have hspan := span_storeAt cells (p % cap) (xs.take (cap - p % cap))
      rw [htake] at hspan
      rw [window_eq_span (by omega)]
      refine (span_congr fun j _ => ?_).trans hspan
      exact storeAt_of_outside (.inr (by rw [hdrop]; omega))
    · rw [window_eq_span (by omega), hwrap, ← hdrop]
      exact span_storeAt _ _ _

end ReechatBase.Lib.Cyclic
