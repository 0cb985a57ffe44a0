import Mathlib.Data.Set.Insert
import Mathlib.Logic.Function.Basic
import Mathlib.Order.Basic

/-!
# Implicit binary heaps

A binary heap kept in an array: position `0` is the root and position `i > 0` hangs below position
`(i - 1) / 2`. An operation opens a *hole*, moves the hole up or down by copying one entry at a
time into it, and stores the entry in hand once it fits. Two invariants go along with the hole:

- **Order** (`Hole`, `Above`, `Below`): only the hole is out of order, and the key in hand
  fits on the side that the hole comes from;
- **Back pointers** (`Displaced`): every member but the one in hand stands in one position
  and knows it.

`Hole.ordered` and `Displaced.indexed` close the hole. Nothing here refers to a particular program.
-/

namespace ReechatBase.Lib.Heap

open Function

/-! ## Positions -/

/-- The position above position `i`. -/
def parent (i : ℕ) : ℕ :=
  (i - 1) / 2

theorem parent_lt {i : ℕ} (hi : 0 < i) : parent i < i := by
  unfold parent
  omega

theorem parent_ne {i : ℕ} (hi : 0 < i) : parent i ≠ i :=
  (parent_lt hi).ne

/-- The positions below position `h`. -/
theorem parent_eq_iff {c h : ℕ} (hc : 0 < c) : parent c = h ↔ c = 2 * h + 1 ∨ c = 2 * h + 2 := by
  unfold parent
  omega

/-! ## Order -/

section Order

variable {κ : Type*} [LinearOrder κ] {n m h c : ℕ} {k : ℕ → κ} {x : κ}

/-- The first `n` keys are in heap order. -/
def Ordered (n : ℕ) (k : ℕ → κ) : Prop :=
  ∀ i, 0 < i → i < n → k (parent i) ≤ k i

/-- The first `n` keys are in heap order once the key at `h` is passed over. -/
structure Hole (n : ℕ) (k : ℕ → κ) (h : ℕ) : Prop where
  off : ∀ i, 0 < i → i < n → i ≠ h → parent i ≠ h → k (parent i) ≤ k i
  across : 0 < h → ∀ i, 0 < i → i < n → parent i = h → k (parent h) ≤ k i

/-- The key `x` may stand at `h` as far as the position above is concerned. -/
def Above (k : ℕ → κ) (h : ℕ) (x : κ) : Prop :=
  0 < h → k (parent h) ≤ x

/-- The key `x` may stand at `h` as far as the positions below are concerned. -/
def Below (n : ℕ) (k : ℕ → κ) (h : ℕ) (x : κ) : Prop :=
  ∀ i, 0 < i → i < n → parent i = h → x ≤ k i

theorem Ordered.mono (ho : Ordered n k) (hmn : m ≤ n) : Ordered m k :=
  fun i hi him => ho i hi (him.trans_le hmn)

/-- The root is a least key. -/
theorem Ordered.root_le (ho : Ordered n k) {i : ℕ} (hi : i < n) : k 0 ≤ k i := by
  induction i using Nat.strong_induction_on with
  | _ i ih =>
    rcases Nat.eq_zero_or_pos i with rfl | hpos
    · exact le_refl _
    · have hlt := parent_lt hpos
      exact (ih (parent i) hlt (hlt.trans hi)).trans (ho i hpos hi)

/-- A heap may be opened anywhere. -/
theorem Ordered.hole (ho : Ordered n k) (h : ℕ) : Hole n k h where
  off i hi hin _ _ := ho i hi hin
  across hh i hi hin hp := by
    have hpar : parent i < i := parent_lt hi
    have hhn : h < n := hp ▸ hpar.trans hin
    exact (ho h hh hhn).trans (hp ▸ ho i hi hin)

/-- What stands in the hole does not matter. -/
theorem Hole.congr (hk : Hole n k h) {k' : ℕ → κ} (hoff : ∀ i, i ≠ h → i < n → k' i = k i) :
    Hole n k' h where
  off i hi hin hih hph := by
    rw [hoff i hih hin, hoff _ hph ((parent_lt hi).trans hin)]
    exact hk.off i hi hin hih hph
  across hh i hi hin hp := by
    have hih : i ≠ h := fun heq => parent_ne hi (hp.trans heq.symm)
    have hhn : h < n := hp ▸ (parent_lt hi).trans hin
    rw [hoff i hih hin, hoff _ (parent_ne hh) ((parent_lt hh).trans hhn)]
    exact hk.across hh i hi hin hp

/-- A key that fits on both sides closes the hole. -/
theorem Hole.ordered (hk : Hole n k h) (ha : Above k h x) (hb : Below n k h x) :
    Ordered n (update k h x) := by
  intro i hi hin
  by_cases hih : i = h
  · subst hih
    rw [update_self, update_of_ne (parent_ne hi)]
    exact ha hi
  · rw [update_of_ne hih]
    by_cases hph : parent i = h
    · rw [hph, update_self]
      exact hb i hi hin hph
    · rw [update_of_ne hph]
      exact hk.off i hi hin hih hph

/-- The hole moves up: what stood above it comes down. -/
theorem Hole.up (hk : Hole n k h) (hh : 0 < h) (hn : h < n) :
    Hole n (update k h (k (parent h))) (parent h) where
  off i hi hin hip hpp := by
    have hih : i ≠ h := by
      rintro rfl
      exact hpp rfl
    rw [update_of_ne hih]
    by_cases hph : parent i = h
    · rw [hph, update_self]
      -- a child of the old hole, where the parent has come down
      exact hk.across hh i hi hin hph
    · rw [update_of_ne hph]
      exact hk.off i hi hin hih hph
  across hpos i hi hin hp := by
    have hlt := parent_lt hh
    have hlt' := parent_lt hpos
    -- what is above the new hole was above the entry that came down
    have habove : k (parent (parent h)) ≤ k (parent h) :=
      hk.off (parent h) hpos (hlt.trans hn) hlt.ne (hlt'.trans hlt).ne
    rw [update_of_ne (hlt'.trans hlt).ne]
    by_cases hih : i = h
    · rw [hih, update_self]
      exact habove
    · rw [update_of_ne hih]
      have hside : k (parent i) ≤ k i := hk.off i hi hin hih (hp ▸ hlt.ne)
      exact habove.trans (hp ▸ hside)

theorem Below.up (hk : Hole n k h) (hh : 0 < h) (hx : x < k (parent h)) :
    Below n (update k h (k (parent h))) (parent h) x := by
  intro i hi hin hp
  by_cases hih : i = h
  · rw [hih, update_self]
    exact hx.le
  · rw [update_of_ne hih]
    have hside : k (parent i) ≤ k i := hk.off i hi hin hih (hp ▸ (parent_lt hh).ne)
    exact hx.le.trans (hp ▸ hside)

/-- The hole moves down: the least of what stood below it comes up. -/
theorem Hole.down (hk : Hole n k h) (hc : 0 < c) (hcn : c < n) (hp : parent c = h)
    (hleast : ∀ i, 0 < i → i < n → parent i = h → k c ≤ k i) : Hole n (update k h (k c)) c where
  off i hi hin hic hpc := by
    by_cases hih : i = h
    · subst hih
      rw [update_self, update_of_ne (parent_ne hi)]
      exact hk.across hi c hc hcn hp
    · rw [update_of_ne hih]
      by_cases hph : parent i = h
      · rw [hph, update_self]
        -- a sibling of the child that came up is no less
        exact hleast i hi hin hph
      · rw [update_of_ne hph]
        exact hk.off i hi hin hih hph
  across _ i hi hin hpi := by
    have hch : h < c := hp ▸ parent_lt hc
    have hci : c < i := hpi ▸ parent_lt hi
    have hbelow : k (parent i) ≤ k i :=
      hk.off i hi hin (hch.trans hci).ne' (hpi ▸ hch.ne')
    rw [hp, update_self, update_of_ne (hch.trans hci).ne']
    exact hpi ▸ hbelow

theorem Above.down (hp : parent c = h) (hx : k c ≤ x) : Above (update k h (k c)) c x := by
  intro _
  rw [hp, update_self]
  exact hx

end Order

/-! ## Back pointers -/

section BackPointers

variable {ε : Type*} {n m h j : ℕ} {p : ℕ → ε} {pos : ε → ℤ} {x : ε} {M : Set ε}

/-- The members `M` stand in the first `n` positions, each in the one that `pos` says. -/
structure Indexed (n : ℕ) (p : ℕ → ε) (pos : ε → ℤ) (M : Set ε) : Prop where
  cell : ∀ i < n, p i ∈ M ∧ pos (p i) = i
  member : ∀ e ∈ M, ∃ i < n, p i = e

/-- So they do but for `x`, which is in hand, and but for the position `h`, which is free. -/
structure Displaced (n : ℕ) (p : ℕ → ε) (pos : ε → ℤ) (h : ℕ) (x : ε) (M : Set ε) : Prop where
  cell : ∀ i < n, i ≠ h → p i ∈ M ∧ p i ≠ x ∧ pos (p i) = i
  member : ∀ e ∈ M, e ≠ x → ∃ i < n, i ≠ h ∧ p i = e

theorem Indexed.pos_eq (hix : Indexed n p pos M) {e : ε} (he : e ∈ M) :
    ∃ i < n, p i = e ∧ pos e = i := by
  obtain ⟨i, hi, rfl⟩ := hix.member e he
  exact ⟨i, hi, rfl, (hix.cell i hi).2⟩

theorem Indexed.inj (hix : Indexed n p pos M) {i : ℕ} (hi : i < n) (hj : j < n)
    (heq : p i = p j) : i = j := by
  have hposi : pos (p i) = i := (hix.cell i hi).2
  have hposj : pos (p j) = j := (hix.cell j hj).2
  rw [heq] at hposi
  exact_mod_cast hposi.symm.trans hposj

/-- A new entry is in hand, and there is room for it at the end. -/
theorem Indexed.grow (hix : Indexed n p pos M) (hx : x ∉ M) :
    Displaced (n + 1) p pos n x (insert x M) where
  cell i hi hin := by
    have hlt : i < n := by omega
    obtain ⟨hmem, hpos⟩ := hix.cell i hlt
    exact ⟨Or.inr hmem, fun e => hx (e ▸ hmem), hpos⟩
  member e he hne := by
    obtain ⟨i, hi, hpi⟩ := hix.member e (he.resolve_left hne)
    exact ⟨i, by omega, by omega, hpi⟩

/-- The entry at `h` goes, and the last entry is in hand. -/
theorem Indexed.cut (hix : Indexed (n + 1) p pos M) (hh : h < n + 1) :
    Displaced n p pos h (p n) (M \ {p h}) where
  cell i hi hih := by
    have hi' : i < n + 1 := by omega
    obtain ⟨hmem, hpos⟩ := hix.cell i hi'
    refine ⟨⟨hmem, ?_⟩, ?_, hpos⟩
    · -- the cell of the event that is taken out is the hole
      intro e
      exact hih (hix.inj hi' hh e)
    · intro e
      exact hi.ne (hix.inj hi' (Nat.lt_succ_self n) e)
  member e he hne := by
    obtain ⟨i, hi, rfl⟩ := hix.member e he.1
    have hin : i ≠ n := by
      rintro rfl
      exact hne rfl
    have hih : i ≠ h := by
      intro e
      exact he.2 (e ▸ rfl)
    exact ⟨i, by omega, hih, rfl⟩

/-- An entry in place is taken in hand. -/
theorem Indexed.lift (hix : Indexed n p pos M) (hh : h < n) : Displaced n p pos h (p h) M where
  cell i hi hih := ⟨(hix.cell i hi).1, fun e => hih (hix.inj hi hh e), (hix.cell i hi).2⟩
  member e he hne := by
    obtain ⟨i, hi, rfl⟩ := hix.member e he
    have hih : i ≠ h := by
      rintro rfl
      exact hne rfl
    exact ⟨i, hi, hih, rfl⟩

variable [DecidableEq ε]

/-- The entry at `j` is copied to `h`, which frees `j`. -/
theorem Displaced.move (hd : Displaced n p pos h x M) (hh : h < n) (hj : j < n) (hjh : j ≠ h) :
    Displaced n (update p h (p j)) (update pos (p j) h) j x M where
  cell i hi hij := by
    by_cases hih : i = h
    · subst hih
      rw [update_self]
      exact ⟨(hd.cell j hj hjh).1, (hd.cell j hj hjh).2.1, update_self ..⟩
    · obtain ⟨hmem, hne, hpos⟩ := hd.cell i hi hih
      rw [update_of_ne hih]
      refine ⟨hmem, hne, ?_⟩
      have hpj : pos (p j) = j := (hd.cell j hj hjh).2.2
      -- no event stands in two cells
      have hpij : p i ≠ p j := by
        intro e
        rw [e, hpj] at hpos
        exact hij (by exact_mod_cast hpos.symm)
      rw [update_of_ne hpij]
      exact hpos
  member e he hne := by
    obtain ⟨i, hi, hih, rfl⟩ := hd.member e he hne
    by_cases hij : i = j
    · subst hij
      exact ⟨h, hh, hih.symm, update_self ..⟩
    · exact ⟨i, hi, hij, update_of_ne hih ..⟩

/-- The entry in hand is stored in the free position, if that is one of the first `n`. -/
theorem Displaced.indexed (hd : Displaced n p pos h x M) (hx : x ∈ M ↔ h < n) :
    Indexed n (update p h x) (update pos x h) M where
  cell i hi := by
    by_cases hih : i = h
    · subst hih
      rw [update_self]
      exact ⟨hx.mpr hi, update_self ..⟩
    · obtain ⟨hmem, hne, hpos⟩ := hd.cell i hi hih
      rw [update_of_ne hih, update_of_ne hne]
      exact ⟨hmem, hpos⟩
  member e he := by
    by_cases hex : e = x
    · subst hex
      exact ⟨h, hx.mp he, update_self ..⟩
    · obtain ⟨i, hi, hih, rfl⟩ := hd.member e he hex
      exact ⟨i, hi, update_of_ne hih ..⟩

end BackPointers

end ReechatBase.Lib.Heap
