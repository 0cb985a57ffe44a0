import Mathlib.Data.List.Basic
import Mathlib.Data.List.TakeWhile

/-!
# Tokens of a list

The tokens of a list are its maximal non-empty runs without a delimiter, told by where they start:
at an element that is no delimiter and has none but a delimiter before it. A scanner looks for them
from the left, by positions:

- `startsFrom_of_find`: from a position where a token may start, the next one starts at the next
  element that is no delimiter;
- `tokenAt_of_find`, `startsFrom_succ_of_find`: it ends at the next delimiter, and behind that the
  scan goes on.

Nothing here refers to a particular program.
-/

namespace ReechatBase.Lib.Tokens

variable {α : Type*} (delim : α → Bool) (s : List α)

/-- A token starts at position `i`. -/
def startsAt (i : ℕ) : Bool :=
  s[i]?.any (fun c => ! delim c) && (i == 0 || s[i - 1]?.any delim)

/-- Where the tokens start from position `i` on, in order -/
def startsFrom (i : ℕ) : List ℕ :=
  (List.range' i (s.length - i)).filter (startsAt delim s)

/-- Where the tokens start -/
def starts : List ℕ :=
  startsFrom delim s 0

/-- The token that starts at position `i` -/
def tokenAt (i : ℕ) : List α :=
  (s.drop i).takeWhile fun c => ! delim c

/-- The tokens, in order -/
def tokens : List (List α) :=
  (starts delim s).map (tokenAt delim s)

/-- The tokens at the positions `l`, where with a limit of `n` all that follows the first `n` is
    left in one piece. -/
def pieces : Option ℕ → List ℕ → List (List α)
  | none, l => l.map (tokenAt delim s)
  | some n, l =>
    match l[n]? with
    | none => l.map (tokenAt delim s)
    | some i => (l.take n).map (tokenAt delim s) ++ [s.drop i]

/-- The first position from `i` on whose element satisfies `q` -/
def findFrom (q : α → Bool) (i : ℕ) : Option ℕ :=
  ((s.drop i).findIdx? q).map (i + ·)

variable {delim s} {q : α → Bool} {i j : ℕ}

/-! ## Searching -/

theorem findFrom_eq_none :
    findFrom s q i = none ↔ ∀ x, i ≤ x → s[x]?.any q = false := by
  rw [findFrom, Option.map_eq_none_iff, List.findIdx?_eq_none_iff]
  constructor
  · intro h x hx
    cases hc : s[x]? with
    | none => rfl
    | some c =>
      have hmem : c ∈ s.drop i := by
        refine List.mem_of_getElem? (i := x - i) ?_
        rw [List.getElem?_drop, Nat.add_sub_cancel' hx, hc]
      simpa using h c hmem
  · intro h c hc
    obtain ⟨k, hk⟩ := List.mem_iff_getElem?.mp hc
    rw [List.getElem?_drop] at hk
    simpa [hk] using h (i + k) (Nat.le_add_right i k)

theorem findFrom_eq_some (h : findFrom s q i = some j) :
    i ≤ j ∧ s[j]?.any q ∧ ∀ x, i ≤ x → x < j → s[x]?.any q = false := by
  obtain ⟨k, hk, rfl⟩ := Option.map_eq_some_iff.mp h
  obtain ⟨hlen, hq, hbefore⟩ := List.findIdx?_eq_some_iff_getElem.mp hk
  refine ⟨Nat.le_add_right i k, ?_, fun x hix hxj => ?_⟩
  · rw [List.getElem_drop] at hq
    rw [List.length_drop] at hlen
    rw [List.getElem?_eq_getElem (by omega)]
    exact hq
  · have hx := hbefore (x - i) (by omega)
    rw [List.getElem_drop] at hx
    rw [List.length_drop] at hlen
    rw [List.getElem?_eq_getElem (by omega)]
    simpa [Nat.add_sub_cancel' hix] using hx

/-! ## The next token -/

theorem startsFrom_of_length_le (h : s.length ≤ i) : startsFrom delim s i = [] := by
  simp [startsFrom, Nat.sub_eq_zero_of_le h]

theorem lt_length_of_startsAt (h : startsAt delim s i) : i < s.length := by
  by_contra hle
  simp [startsAt, List.getElem?_eq_none (Nat.le_of_not_lt hle)] at h

theorem startsFrom_succ (h : i < s.length) :
    startsFrom delim s i =
      if startsAt delim s i then i :: startsFrom delim s (i + 1)
      else startsFrom delim s (i + 1) := by
  obtain ⟨n, hn⟩ : ∃ n, s.length - i = n + 1 := ⟨s.length - i - 1, by omega⟩
  have hn' : s.length - (i + 1) = n := by omega
  rw [startsFrom, startsFrom, hn, hn', List.range'_succ, List.filter_cons]

/-- Where no token starts nothing is found. -/
theorem startsFrom_skip (hij : i ≤ j) (h : ∀ x, i ≤ x → x < j → startsAt delim s x = false) :
    startsFrom delim s i = startsFrom delim s j := by
  induction j, hij using Nat.le_induction with
  | base => rfl
  | succ j hij ih =>
    rw [ih fun x hx hxj => h x hx (by omega)]
    by_cases hlen : j < s.length
    · rw [startsFrom_succ hlen, h j hij (by omega)]
      rfl
    · rw [startsFrom_of_length_le (by omega), startsFrom_of_length_le (by omega)]

/-- A token may start here: nothing or a delimiter stands before. -/
def Boundary (delim : α → Bool) (s : List α) (i : ℕ) : Prop :=
  i = 0 ∨ s[i - 1]?.any delim

theorem boundary_succ (h : s[i]?.any delim) : Boundary delim s (i + 1) :=
  .inr h

theorem boundary_append {r : List α} (h : ∀ c, r.getLast? = some c → delim c) :
    Boundary delim (r ++ s) r.length := by
  by_cases hr : r = []
  · exact .inl (by simp [hr])
  · have hlen : r.length - 1 < r.length := Nat.sub_one_lt (by simpa using hr)
    have hlast : r.getLast? = some r[r.length - 1] := by
      rw [List.getLast?_eq_getElem?, List.getElem?_eq_getElem hlen]
    refine .inr ?_
    rw [List.getElem?_append_left hlen, List.getElem?_eq_getElem hlen]
    exact h _ hlast

theorem startsAt_of_boundary (hb : Boundary delim s i) :
    startsAt delim s i = s[i]?.any fun c => ! delim c := by
  have hb : (i == 0 || s[i - 1]?.any delim) = true := by simpa [Boundary] using hb
  rw [startsAt, hb, Bool.and_true]

theorem startsAt_of_delim (h : s[i]?.any (fun c => ! delim c) = false) :
    startsAt delim s i = false := by
  simp only [startsAt, h, Bool.false_and]

theorem any_delim_of_lt (hlt : i < s.length) (h : s[i]?.any (fun c => ! delim c) = false) :
    s[i]?.any delim := by
  rw [List.getElem?_eq_getElem hlt] at h ⊢
  simpa using h

theorem startsFrom_of_find_none (h : findFrom s (fun c => ! delim c) i = none) :
    startsFrom delim s i = [] := by
  have hnone := findFrom_eq_none.mp h
  rw [startsFrom_skip (Nat.le_max_left i s.length) fun x hx _ => startsAt_of_delim (hnone x hx)]
  exact startsFrom_of_length_le (Nat.le_max_right i s.length)

theorem startsFrom_of_find (hb : Boundary delim s i)
    (h : findFrom s (fun c => ! delim c) i = some j) :
    startsFrom delim s i = j :: startsFrom delim s (j + 1) := by
  obtain ⟨hij, hj, hbefore⟩ := findFrom_eq_some h
  have hlen : j < s.length := by
    by_contra hle
    simp [List.getElem?_eq_none (Nat.le_of_not_lt hle)] at hj
  have hprev : Boundary delim s j := by
    rcases Nat.eq_or_lt_of_le hij with rfl | hlt
    · exact hb
    · exact .inr (any_delim_of_lt (by omega) (hbefore (j - 1) (by omega) (by omega)))
  have hstart : startsAt delim s j := (startsAt_of_boundary hprev).trans hj
  rw [startsFrom_skip hij fun x hx hxj => startsAt_of_delim (hbefore x hx hxj),
    startsFrom_succ hlen, if_pos hstart]

/-- Inside a token no other starts. -/
theorem startsAt_inside (hi : s[i]?.any delim = false) : startsAt delim s (i + 1) = false := by
  simp [startsAt, hi]

theorem tokenAt_of_find (h : findFrom s delim i = some j) :
    tokenAt delim s i = (s.drop i).take (j - i) := by
  obtain ⟨k, hk, rfl⟩ := Option.map_eq_some_iff.mp h
  have hidx := (List.findIdx?_eq_some_iff_findIdx_eq.mp hk).2
  rw [tokenAt, List.takeWhile_eq_take_findIdx_not]
  simp only [Bool.not_not, hidx, Nat.add_sub_cancel_left]

theorem startsFrom_succ_of_find (h : findFrom s delim i = some j) (hi : s[i]?.any delim = false) :
    startsFrom delim s (i + 1) = startsFrom delim s (j + 1) := by
  obtain ⟨hij, hj, hbefore⟩ := findFrom_eq_some h
  have hne : i ≠ j := by
    rintro rfl
    simp [hi] at hj
  refine startsFrom_skip (by omega) fun x hx hxj => ?_
  obtain ⟨y, rfl⟩ : ∃ y, x = y + 1 := ⟨x - 1, by omega⟩
  exact startsAt_inside (hbefore y (by omega) (by omega))

theorem tokenAt_of_find_none (h : findFrom s delim i = none) : tokenAt delim s i = s.drop i := by
  rw [tokenAt, List.takeWhile_eq_self_iff]
  rw [findFrom, Option.map_eq_none_iff, List.findIdx?_eq_none_iff] at h
  simpa using h

theorem startsFrom_succ_of_find_none (h : findFrom s delim i = none) :
    startsFrom delim s (i + 1) = [] := by
  have hnone := findFrom_eq_none.mp h
  rw [startsFrom_skip (Nat.le_max_left (i + 1) s.length) fun x hx _ => ?_]
  · exact startsFrom_of_length_le (Nat.le_max_right _ _)
  · obtain ⟨y, rfl⟩ : ∃ y, x = y + 1 := ⟨x - 1, by omega⟩
    exact startsAt_inside (hnone y (by omega))

theorem not_delim_of_find (h : findFrom s (fun c => ! delim c) i = some j) :
    s[j]?.any delim = false := by
  obtain ⟨-, hj, -⟩ := findFrom_eq_some h
  cases hc : s[j]? with
  | none => rfl
  | some c => simpa [hc] using hj

variable {k : ℕ}

/-- **One step of a scan**, over a token that a delimiter follows. -/
theorem startsFrom_scan (hb : Boundary delim s i) (hi : findFrom s (fun c => ! delim c) i = some j)
    (hj : findFrom s delim j = some k) :
    startsFrom delim s i = j :: startsFrom delim s (k + 1) := by
  rw [startsFrom_of_find hb hi, startsFrom_succ_of_find hj (not_delim_of_find hi)]

/-- The last step, over a token that reaches to the end. -/
theorem startsFrom_scan_last (hb : Boundary delim s i)
    (hi : findFrom s (fun c => ! delim c) i = some j) (hj : findFrom s delim j = none) :
    startsFrom delim s i = [j] := by
  rw [startsFrom_of_find hb hi, startsFrom_succ_of_find_none hj]

/-! ## What the tokens are -/

theorem mem_starts : i ∈ starts delim s ↔ startsAt delim s i := by
  simp only [starts, startsFrom, List.mem_filter, List.mem_range'_1, Nat.sub_zero, Nat.zero_add,
    and_iff_right_iff_imp]
  exact fun h => ⟨Nat.zero_le i, lt_length_of_startsAt h⟩

theorem starts_sorted : (starts delim s).Pairwise (· < ·) :=
  List.Pairwise.filter _ List.pairwise_lt_range'

/-- **Maximality.** The token at `i` is the run that begins there, holds no delimiter, and stands
    between delimiters or the ends. -/
theorem token_iff {t : List α} : (i ∈ starts delim s ∧ tokenAt delim s i = t) ↔
    ∃ pre post, s = pre ++ t ++ post ∧ pre.length = i ∧ t ≠ [] ∧ (∀ c ∈ t, delim c = false) ∧
      (∀ c, pre.getLast? = some c → delim c) ∧ ∀ c, post.head? = some c → delim c := by
  rw [mem_starts]
  constructor
  · rintro ⟨hstart, rfl⟩
    have hlen := lt_length_of_startsAt hstart
    obtain ⟨hfirst, hprev⟩ : delim s[i] = false ∧ (i = 0 ∨ s[i - 1]?.any delim) := by
      simpa [startsAt, List.getElem?_eq_getElem hlen] using hstart
    refine ⟨s.take i, (s.drop i).dropWhile fun c => ! delim c, ?_, ?_, ?_, ?_, ?_, ?_⟩
    · rw [List.append_assoc, tokenAt, List.takeWhile_append_dropWhile, List.take_append_drop]
    · exact List.length_take_of_le hlen.le
    · rw [tokenAt, List.drop_eq_getElem_cons hlen, List.takeWhile_cons_of_pos (by simp [hfirst])]
      exact List.cons_ne_nil _ _
    · intro c hc
      simpa using List.mem_takeWhile_imp hc
    · intro c hc
      rcases hprev with rfl | hprev
      · simp at hc
      · rw [List.getLast?_eq_getElem?, List.length_take_of_le hlen.le, List.getElem?_take] at hc
        split_ifs at hc
        simpa [hc] using hprev
    · intro c hc
      have hhead := List.head?_dropWhile_not (fun c => ! delim c) (s.drop i)
      rw [hc] at hhead
      simpa using hhead
  · rintro ⟨pre, post, rfl, rfl, hne, hfree, hpre, hpost⟩
    have hdrop : (pre ++ t ++ post).drop pre.length = t ++ post := by
      rw [List.append_assoc, List.drop_left]
    obtain ⟨c, t, rfl⟩ := List.exists_cons_of_ne_nil hne
    constructor
    · rw [List.append_assoc, startsAt_of_boundary (boundary_append hpre),
        List.getElem?_append_right le_rfl]
      simp [hfree c List.mem_cons_self]
    · rw [tokenAt, hdrop, List.takeWhile_append_of_pos fun c hc => by simp [hfree c hc]]
      cases post with
      | nil => simp
      | cons d post => simp [hpost d rfl]

theorem startsAt_append_left {r : List α} (hi : i < r.length) :
    startsAt delim (r ++ s) i = startsAt delim r i := by
  rw [startsAt, startsAt, List.getElem?_append_left hi, List.getElem?_append_left (by omega)]

theorem startsAt_append_right {r : List α} (h : ∀ c, r.getLast? = some c → delim c) (i : ℕ) :
    startsAt delim (r ++ s) (r.length + i) = startsAt delim s i := by
  have hget : ∀ k, (r ++ s)[r.length + k]? = s[k]? := by
    intro k
    rw [List.getElem?_append_right (Nat.le_add_right _ _), Nat.add_sub_cancel_left]
  cases i with
  | zero =>
    have hzero : startsAt delim s 0 = s[0]?.any fun c => ! delim c :=
      startsAt_of_boundary (.inl rfl)
    rw [hzero, Nat.add_zero, startsAt_of_boundary (boundary_append h), ← hget 0, Nat.add_zero]
  | succ i =>
    have hpos : (r.length + (i + 1) == 0) = false := by simp
    have hprev : (r ++ s)[r.length + (i + 1) - 1]? = s[i]? := hget i
    rw [startsAt, startsAt, hget, hprev, hpos]
    rfl

/-- Behind a delimiter the tokens are those of the rest. -/
theorem starts_append {r : List α} (h : ∀ c, r.getLast? = some c → delim c) :
    starts delim (r ++ s) = starts delim r ++ (starts delim s).map (r.length + ·) := by
  simp only [starts, startsFrom, Nat.sub_zero, ← List.range_eq_range', List.length_append,
    List.range_add, List.filter_append, List.filter_map]
  congr 1
  · refine List.filter_congr fun i hi => startsAt_append_left (List.mem_range.mp hi)
  · congr 1
    exact List.filter_congr fun i _ => startsAt_append_right h i

/-! ## Pieces -/

@[simp] theorem pieces_nil (limit : Option ℕ) : pieces delim s limit [] = [] := by
  cases limit <;> rfl

@[simp] theorem pieces_none_cons (l : List ℕ) :
    pieces delim s none (i :: l) = tokenAt delim s i :: pieces delim s none l := rfl

@[simp] theorem pieces_zero_cons (l : List ℕ) : pieces delim s (some 0) (i :: l) = [s.drop i] := rfl

@[simp] theorem pieces_succ_cons (n : ℕ) (l : List ℕ) :
    pieces delim s (some (n + 1)) (i :: l) = tokenAt delim s i :: pieces delim s (some n) l := by
  simp only [pieces, List.getElem?_cons_succ]
  cases l[n]? <;> rfl

theorem pieces_last (limit : Option ℕ) (h : findFrom s delim i = none) :
    pieces delim s limit [i] = [s.drop i] := by
  rcases limit with - | - | n
  · rw [pieces_none_cons, tokenAt_of_find_none h]
    rfl
  · rfl
  · rw [pieces_succ_cons, tokenAt_of_find_none h, pieces_nil]

end ReechatBase.Lib.Tokens
