import Mathlib.Algebra.Group.Nat.Defs
import Mathlib.Tactic.Common

/-!
# Numbers as bytes

A number below `256 ^ w` is a list of `w` bytes. The bytes are listed least significant first;
reversing them exchanges the two byte orders.

- `toBytes`, `ofBytes`: the two directions, inverse to each other;
- `swap`: the number with its bytes reversed, an involution;
- `and_byte_mask`, `ofBytes_concat`: how masks and shifts take single bytes apart and put them
  together.
-/

namespace ReechatBase.Lib.Endian

/-- The `w` lowest bytes of a number, least significant first. -/
def toBytes : ℕ → ℕ → List UInt8
  | 0, _ => []
  | w + 1, x => UInt8.ofNat x :: toBytes w (x / 256)

/-- The number that has these bytes, least significant first. -/
def ofBytes : List UInt8 → ℕ
  | [] => 0
  | c :: cs => c.toNat + 256 * ofBytes cs

@[simp] theorem length_toBytes (w x : ℕ) : (toBytes w x).length = w := by
  induction w generalizing x with
  | zero => rfl
  | succ w ih => rw [toBytes, List.length_cons, ih]

theorem ofBytes_lt (cs : List UInt8) : ofBytes cs < 256 ^ cs.length := by
  induction cs with
  | nil => exact Nat.one_pos
  | cons c cs ih =>
    have hc : c.toNat < 256 := c.toNat_lt
    rw [ofBytes, List.length_cons, Nat.pow_succ]
    omega

theorem toBytes_ofBytes (cs : List UInt8) : toBytes cs.length (ofBytes cs) = cs := by
  induction cs with
  | nil => rfl
  | cons c cs ih =>
    have hc : c.toNat < 256 := c.toNat_lt
    have hdiv : (c.toNat + 256 * ofBytes cs) / 256 = ofBytes cs := by omega
    have hhead : UInt8.ofNat (c.toNat + 256 * ofBytes cs) = c := by
      apply UInt8.toNat_inj.mp
      rw [UInt8.toNat_ofNat']
      omega
    rw [List.length_cons, ofBytes, toBytes, hdiv, hhead, ih]

theorem ofBytes_toBytes {w x : ℕ} (hx : x < 256 ^ w) : ofBytes (toBytes w x) = x := by
  induction w generalizing x with
  | zero =>
    rw [Nat.pow_zero, Nat.lt_one_iff] at hx
    exact hx.symm
  | succ w ih =>
    have hdiv : x / 256 < 256 ^ w := by
      rw [Nat.pow_succ] at hx
      exact Nat.div_lt_of_lt_mul (by rwa [Nat.mul_comm])
    have hlow : (UInt8.ofNat x).toNat = x % 256 := UInt8.toNat_ofNat'
    rw [toBytes, ofBytes, ih hdiv, hlow]
    omega

/-! ## Reversing the bytes -/

/-- The number with its `w` bytes in reverse order. -/
def swap (w x : ℕ) : ℕ := ofBytes (toBytes w x).reverse

theorem swap_lt (w x : ℕ) : swap w x < 256 ^ w := by
  have h := ofBytes_lt (toBytes w x).reverse
  rwa [List.length_reverse, length_toBytes] at h

theorem toBytes_swap (w x : ℕ) : toBytes w (swap w x) = (toBytes w x).reverse := by
  have h := toBytes_ofBytes (toBytes w x).reverse
  rwa [List.length_reverse, length_toBytes] at h

theorem swap_swap {w x : ℕ} (hx : x < 256 ^ w) : swap w (swap w x) = x := by
  rw [swap, toBytes_swap, List.reverse_reverse, ofBytes_toBytes hx]

/-! ## Masks and shifts -/

/-- Masking eight consecutive bits leaves one byte, in its place. -/
theorem and_byte_mask (x k : ℕ) : x &&& 255 * 2 ^ k = x / 2 ^ k % 256 * 2 ^ k := by
  have hmod : x / 2 ^ k % 256 = x / 2 ^ k &&& 255 :=
    (Nat.and_two_pow_sub_one_eq_mod (x / 2 ^ k) 8).symm
  rw [hmod]
  apply Nat.eq_of_testBit_eq
  intro i
  simp only [Nat.testBit_and, Nat.testBit_mul_two_pow, Nat.testBit_div_two_pow]
  by_cases hk : k ≤ i
  · rw [Nat.sub_add_cancel hk]
    simp [hk]
  · simp [hk]

/-- A further byte is put above the ones that are there. -/
theorem ofBytes_concat (cs : List UInt8) (c : UInt8) :
    ofBytes (cs ++ [c]) = ofBytes cs ||| c.toNat * 2 ^ (8 * cs.length) := by
  have hlt : ofBytes cs < 2 ^ (8 * cs.length) := by
    rw [Nat.pow_mul]
    exact ofBytes_lt cs
  have hsum : ofBytes (cs ++ [c]) = ofBytes cs + c.toNat * 2 ^ (8 * cs.length) := by
    clear hlt
    induction cs with
    | nil => simp [ofBytes]
    | cons d ds ih =>
      have hpow : 2 ^ (8 * (ds.length + 1)) = 2 ^ (8 * ds.length) * 256 :=
        Nat.pow_add 2 (8 * ds.length) 8
      rw [List.cons_append, ofBytes, ofBytes, ih, List.length_cons, hpow, Nat.mul_add,
        Nat.mul_left_comm 256, Nat.mul_comm 256 (2 ^ _), Nat.add_assoc]
  -- the bits of the two numbers are disjoint
  rw [hsum, Nat.or_comm, Nat.mul_comm c.toNat, Nat.add_comm, Nat.two_pow_add_eq_or_of_lt hlt]

end ReechatBase.Lib.Endian
