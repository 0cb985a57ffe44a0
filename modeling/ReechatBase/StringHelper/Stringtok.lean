import Mathlib.Algebra.Group.Int.Defs
import Mathlib.Algebra.Group.Nat.Defs
import Mathlib.Data.List.Flatten
import ReechatBase.Lib.Tokens

/-!
# stringtok

`string_helper.h` splits a string by a loop over positions. A string is the list of its bytes, and
`delimiters` the bytes of a C string. `count` is an `int`: incrementing the largest is undefined
behaviour, and gives no result here.

- `reference_maximalRuns`: the reference splitting, told by the maximal runs without a delimiter;
- `stringtokLoop_eq`: what the loop does from a position where a token may start;
- `stringtok_iff`: the result is the reference splitting, except where `count` overflows.
-/

namespace ReechatBase.StringHelper

open Lib.Tokens

/-! ## The source -/

section

variable (s delimiters : List UInt8)

/-- One of the bytes of `delimiters` -/
def isDelimiter (c : UInt8) : Bool :=
  delimiters.contains c

/-- `std::string::find_first_not_of` -/
def findFirstNotOf (pos : ℕ) : Option ℕ :=
  findFrom s (fun c => ! isDelimiter delimiters c) pos

/-- `std::string::find_first_of` -/
def findFirstOf (pos : ℕ) : Option ℕ :=
  findFrom s (isDelimiter delimiters) pos

/-- `count++`, which may not overflow -/
def increment (count : Int32) : Option Int32 :=
  if count = Int32.maxValue then none else some (count + 1)

theorem findFirstNotOf_ge {i a : ℕ} (h : findFirstNotOf s delimiters i = some a) : i ≤ a :=
  (findFrom_eq_some h).1

theorem findFirstOf_ge {a j : ℕ} (h : findFirstOf s delimiters a = some j) : a ≤ j :=
  (findFrom_eq_some h).1

/-- The loop of `stringtok`, at position `i` -/
def stringtokLoop (deep : Int32) (i : ℕ) (count : Int32) (container : List (List UInt8)) :
    Option (List (List UInt8)) :=
  if _ : i < s.length then
    match _ : findFirstNotOf s delimiters i with
    | none => some container
    | some a =>
      match increment count with
      | none => none
      | some count =>
        match _ : findFirstOf s delimiters a with
        | none => some (container ++ [s.drop a])
        | some j =>
          if deep > 0 ∧ count > deep then some (container ++ [s.drop a])
          else stringtokLoop deep (j + 1) count (container ++ [(s.drop a).take (j - a)])
  else some container
termination_by s.length - i
decreasing_by
  have hia := findFirstNotOf_ge s delimiters ‹_ = some a›
  have haj := findFirstOf_ge s delimiters ‹_ = some j›
  omega

end

/-- `stringtok` -/
def stringtok (container : List (List UInt8)) (s delimiters : List UInt8) (deep : Int32) :
    Option (List (List UInt8)) :=
  stringtokLoop s delimiters deep 0 0 container

/-- The default `delimiters`, `" \t\n"` -/
def defaultDelimiters : List UInt8 := [32, 9, 10]

/-- The default `deep` -/
def defaultDeep : Int32 := 0

/-! ## The reference -/

/-- Splitting at the delimiters: all tokens, or with `deep > 0` the first `deep` of them and the
    rest from where the next one starts. -/
def reference (s delimiters : List UInt8) (deep : Int32) : List (List UInt8) :=
  pieces (isDelimiter delimiters) s (if 0 < deep then some deep.toNatClampNeg else none)
    (starts (isDelimiter delimiters) s)

/-- The maximal non-empty runs of `s` without a delimiter, in order, each with its position. -/
structure MaximalRuns (s delimiters : List UInt8) (l : List (ℕ × List UInt8)) : Prop where
  sorted : l.Pairwise (·.1 < ·.1)
  mem : ∀ i t, (i, t) ∈ l ↔ ∃ pre post, s = pre ++ t ++ post ∧ pre.length = i ∧ t ≠ [] ∧
    (∀ c ∈ t, isDelimiter delimiters c = false) ∧
    (∀ c, pre.getLast? = some c → isDelimiter delimiters c) ∧
    ∀ c, post.head? = some c → isDelimiter delimiters c

/-- What the reference is, told by the maximal runs alone. -/
theorem reference_maximalRuns (s delimiters : List UInt8) (deep : Int32) :
    ∃ l, MaximalRuns s delimiters l ∧
      (¬ 0 < deep ∨ l.length ≤ deep.toNatClampNeg →
        reference s delimiters deep = l.map Prod.snd) ∧
      (0 < deep → ∀ x, l[deep.toNatClampNeg]? = some x →
        reference s delimiters deep =
          (l.take deep.toNatClampNeg).map Prod.snd ++ [s.drop x.1]) := by
  refine ⟨(starts (isDelimiter delimiters) s).map fun i =>
    (i, tokenAt (isDelimiter delimiters) s i), ⟨?_, fun i t => ?_⟩, fun hall => ?_,
    fun hpos x hx => ?_⟩
  · exact List.pairwise_map.mpr starts_sorted
  · rw [← token_iff, List.mem_map]
    constructor
    · rintro ⟨j, hj, heq⟩
      obtain ⟨rfl, rfl⟩ := Prod.mk.inj heq
      exact ⟨hj, rfl⟩
    · rintro ⟨hi, rfl⟩
      exact ⟨i, hi, rfl⟩
  · rw [reference, List.map_map]
    split_ifs with hpos
    · have hlen := hall.resolve_left (not_not_intro hpos)
      rw [List.length_map] at hlen
      rw [pieces, List.getElem?_eq_none hlen]
      rfl
    · rfl
  · rw [List.getElem?_map, Option.map_eq_some_iff] at hx
    obtain ⟨i, hi, rfl⟩ := hx
    rw [reference, if_pos hpos, pieces, hi, ← List.map_take, List.map_map]
    rfl

/-! ## The loop -/

variable {s delimiters : List UInt8} {deep count : Int32} {i c : ℕ} {limit : Option ℕ}

/-- What is left of `deep` after `c` tokens -/
def Remaining (deep : Int32) (c : ℕ) : Option ℕ → Prop
  | none => ¬ 0 < deep
  | some n => 0 < deep ∧ deep.toInt = c + n

/-- How often the loop increments `count` when tokens start at `l` -/
def rounds (l : List ℕ) : Option ℕ → ℕ
  | none => l.length
  | some n => min l.length (n + 1)

theorem toInt_increment {count' : Int32} (h : increment count = some count') :
    count'.toInt = count.toInt + 1 := by
  rw [increment] at h
  split_ifs at h with hmax
  obtain rfl := Option.some.inj h
  have hne : count.toInt ≠ 2 ^ 31 - 1 := fun heq => hmax (Int32.toInt.inj heq)
  have hlt := count.toInt_lt
  have hge := count.le_toInt
  rw [Int32.toInt_add]
  have hone : (1 : Int32).toInt = 1 := by decide
  rw [hone]
  exact Int.bmod_eq_of_le (by omega) (by omega)

theorem eq_max_of_increment (h : increment count = none) : count.toInt = 2 ^ 31 - 1 := by
  rw [increment] at h
  split_ifs at h with hmax
  rw [hmax]
  decide

@[simp] theorem rounds_nil : rounds [] limit = 0 := by
  cases limit <;> simp [rounds]

theorem rounds_pos (l : List ℕ) : 1 ≤ rounds (i :: l) limit := by
  cases limit <;> simp [rounds]

theorem rounds_none_cons (l : List ℕ) : rounds (i :: l) none = rounds l none + 1 := rfl

theorem rounds_succ_cons (l : List ℕ) (n : ℕ) :
    rounds (i :: l) (some (n + 1)) = rounds l (some n) + 1 :=
  Nat.add_min_add_right l.length (n + 1) 1

@[simp] theorem rounds_singleton : rounds [i] limit = 1 := by
  cases limit <;> simp [rounds]

/-- **The loop**, from a position where a token may start, after `c` tokens. -/
theorem stringtokLoop_eq (hb : Boundary (isDelimiter delimiters) s i)
    (hcount : count.toInt = c) (hlimit : Remaining deep c limit) (container : List (List UInt8)) :
    stringtokLoop s delimiters deep i count container =
      if c + rounds (startsFrom (isDelimiter delimiters) s i) limit < 2 ^ 31 then
        some (container ++
          pieces (isDelimiter delimiters) s limit (startsFrom (isDelimiter delimiters) s i))
      else none := by
  have hlt := count.toInt_lt
  fun_induction stringtokLoop s delimiters deep i count container generalizing c limit with
  | case1 i count container hi ha =>
    -- nothing but delimiters is left
    rw [startsFrom_of_find_none ha, rounds_nil, pieces_nil, List.append_nil, if_pos (by omega)]
  | case2 i count container hi a ha hinc =>
    -- `count` overflows
    have hmax := eq_max_of_increment hinc
    have hround : 1 ≤ rounds (a :: startsFrom (isDelimiter delimiters) s (a + 1)) limit :=
      rounds_pos _
    rw [startsFrom_of_find hb ha, if_neg (by omega)]
  | case3 i count container hi a ha count' hinc hj =>
    -- the last token, which no delimiter follows
    have hcount' := toInt_increment hinc
    have hlt' := count'.toInt_lt
    rw [startsFrom_scan_last hb ha hj, rounds_singleton, pieces_last limit hj, if_pos (by omega)]
  | case4 i count container hi a ha count' hinc j hj hdeep =>
    -- one token more than `deep`
    have hcount' := toInt_increment hinc
    have hlt' := count'.toInt_lt
    obtain ⟨hpos, hmore⟩ := hdeep
    cases limit with
    | none => exact absurd hpos hlimit
    | some n =>
      have hdeep := hlimit.2
      have hmore : deep.toInt < count'.toInt := Int32.lt_iff_toInt_lt.mp hmore
      obtain rfl : n = 0 := by omega
      have hround : rounds (a :: startsFrom (isDelimiter delimiters) s (j + 1)) (some 0) = 1 := by
        simp [rounds]
      rw [startsFrom_scan hb ha hj, hround, pieces_zero_cons, if_pos (by omega)]
  | case5 i count container hi a ha count' hinc j hj hdeep ih =>
    have hcount' := toInt_increment hinc
    have hb' := boundary_succ (findFrom_eq_some hj).2.1
    have hc' : count'.toInt = (c + 1 : ℕ) := by omega
    cases limit with
    | none =>
      rw [@ih (c + 1) none hb' hc' hlimit count'.toInt_lt, startsFrom_scan hb ha hj,
        pieces_none_cons, tokenAt_of_find hj, List.append_assoc, List.singleton_append,
        rounds_none_cons, Nat.add_right_comm]
      rfl
    | some n =>
      have hdeep' := hlimit.2
      obtain ⟨m, rfl⟩ : ∃ m, n = m + 1 := by
        refine ⟨n - 1, ?_⟩
        have hle : ¬ deep.toInt < count'.toInt :=
          fun hlt => hdeep ⟨hlimit.1, Int32.lt_iff_toInt_lt.mpr hlt⟩
        omega
      have hlimit' : Remaining deep (c + 1) (some m) := ⟨hlimit.1, by omega⟩
      rw [ih hb' hc' hlimit' count'.toInt_lt, startsFrom_scan hb ha hj, pieces_succ_cons,
        tokenAt_of_find hj, List.append_assoc, List.singleton_append, rounds_succ_cons,
        Nat.add_right_comm]
      rfl
  | case6 i count container hi =>
    rw [startsFrom_of_length_le (by omega), rounds_nil, pieces_nil, List.append_nil,
      if_pos (by omega)]

/-! ## The whole function -/

theorem remaining_zero (deep : Int32) :
    Remaining deep 0 (if 0 < deep then some deep.toNatClampNeg else none) := by
  split_ifs with hpos
  · have hpos' : 0 < deep.toInt := Int32.lt_iff_toInt_lt.mp hpos
    refine ⟨hpos, ?_⟩
    rw [← Int32.toNat_toInt]
    omega
  · exact hpos

theorem rounds_lt_iff {l : List ℕ} (hlimit : Remaining deep 0 limit) :
    rounds l limit < 2 ^ 31 ↔ l.length < 2 ^ 31 ∨ (0 < deep ∧ deep < Int32.maxValue) := by
  have hmax : deep < Int32.maxValue ↔ deep.toInt < 2 ^ 31 - 1 := Int32.lt_iff_toInt_lt
  cases limit with
  | none =>
    have hno : ¬ 0 < deep := hlimit
    simp only [rounds, hno, false_and, or_false]
  | some n =>
    obtain ⟨hpos, hdeep⟩ := hlimit
    simp only [rounds, hpos, true_and, hmax, hdeep]
    omega

theorem stringtok_eq (container : List (List UInt8)) (s delimiters : List UInt8) (deep : Int32) :
    stringtok container s delimiters deep =
      if (tokens (isDelimiter delimiters) s).length < 2 ^ 31 ∨
          (0 < deep ∧ deep < Int32.maxValue) then
        some (container ++ reference s delimiters deep)
      else none := by
  have hzero : (0 : Int32).toInt = (0 : ℕ) := by decide
  rw [stringtok, stringtokLoop_eq (.inl rfl) hzero (remaining_zero deep), tokens, List.length_map,
    Nat.zero_add]
  exact if_congr (rounds_lt_iff (remaining_zero deep)) rfl rfl

/-- **Splitting.** `stringtok` appends the reference splitting for every string, every set of
    delimiters and every `deep`, as long as there are fewer than `2 ^ 31` tokens or `deep` stops the
    loop before `count` overflows. Otherwise its behaviour is undefined. -/
theorem stringtok_iff (container : List (List UInt8)) (s delimiters : List UInt8) (deep : Int32) :
    stringtok container s delimiters deep = some (container ++ reference s delimiters deep) ↔
      (tokens (isDelimiter delimiters) s).length < 2 ^ 31 ∨
        (0 < deep ∧ deep < Int32.maxValue) := by
  rw [stringtok_eq]
  split_ifs with h
  · exact iff_of_true rfl h
  · exact iff_of_false nofun h

/-- The example of the header's comment: `" this  \t is\t\n  a test  "` -/
example : reference [32, 116, 104, 105, 115, 32, 32, 9, 32, 105, 115, 9, 10, 32, 32, 97, 32, 116,
    101, 115, 116, 32, 32] defaultDelimiters defaultDeep =
      [[116, 104, 105, 115], [105, 115], [97], [116, 101, 115, 116]] := by decide

/-- `"a "`, over and over -/
def manyTokens (n : ℕ) : List UInt8 :=
  (List.replicate n [97, 32]).flatten

theorem length_starts_manyTokens (n : ℕ) :
    (starts (isDelimiter defaultDelimiters) (manyTokens n)).length = n := by
  induction n with
  | zero => rfl
  | succ n ih =>
    have hone : starts (isDelimiter defaultDelimiters) [97, 32] = [0] := by decide
    have hlast : ∀ c, [97, 32].getLast? = some c → isDelimiter defaultDelimiters c := by
      intro c hc
      obtain rfl := Option.some.inj hc
      decide
    rw [manyTokens, List.replicate_succ, List.flatten_cons, starts_append hlast, hone,
      List.length_append, List.length_map]
    exact Nat.add_comm 1 _ |>.trans (congrArg (· + 1) ih)

theorem length_manyTokens (n : ℕ) : (manyTokens n).length = 2 * n := by
  rw [manyTokens, List.length_flatten, List.map_replicate, List.sum_replicate_nat, Nat.mul_comm]
  rfl

theorem stringtok_manyTokens {n : ℕ} (hn : 2 ^ 31 ≤ n) (container : List (List UInt8)) :
    stringtok container (manyTokens n) defaultDelimiters Int32.maxValue = none := by
  rw [stringtok_eq, if_neg]
  rintro (hfew | ⟨-, hlt⟩)
  · rw [tokens, List.length_map, length_starts_manyTokens] at hfew
    exact absurd hfew (Nat.not_lt.mpr hn)
  · exact absurd hlt (by decide)

/-- **The counter overflows.** In a string of `2 ^ 31` tokens, 4 GiB long, the largest `deep` leaves
    `count` to be incremented `2 ^ 31` times. -/
theorem stringtok_overflows :
    (manyTokens (2 ^ 31)).length = 2 * 2 ^ 31 ∧
      stringtok [] (manyTokens (2 ^ 31)) defaultDelimiters Int32.maxValue ≠
        some ([] ++ reference (manyTokens (2 ^ 31)) defaultDelimiters Int32.maxValue) := by
  refine ⟨length_manyTokens _, ?_⟩
  rw [stringtok_manyTokens le_rfl]
  exact nofun

end ReechatBase.StringHelper
