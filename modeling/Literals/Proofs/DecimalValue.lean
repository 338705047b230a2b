/-
# The value of a decimal

A decimal is worth `± coefficient * 10 ^ exponent`, and **bringing it to lowest terms keeps its
value** (`value_make`), so decimals that compare as equal are worth the same.
-/
import Mathlib.Algebra.Order.Field.Rat
import Mathlib.Algebra.Order.Ring.Cast
import Mathlib.Tactic.NormNum
import Mathlib.Tactic.Ring
import Literals.Node.Scalar

namespace Literals.Number

theorem trimZeros_value (fuel n : Nat) (e : Int) :
    ((trimZeros fuel n e).1 : ℚ) * 10 ^ (trimZeros fuel n e).2 = n * 10 ^ e := by
  induction fuel generalizing n e with
  | zero => rfl
  | succ fuel ih =>
    unfold trimZeros
    split
    next h =>
      have hn : (n : ℚ) = ((n / 10 : Nat) : ℚ) * 10 := by
        exact_mod_cast (Nat.div_mul_cancel (Nat.dvd_of_mod_eq_zero h)).symm
      rw [ih, zpow_add_one₀ (by decide), hn]
      ring
    next => rfl

theorem lowestTerms_value (n : Nat) (e : Int) :
    ((lowestTerms n e).1 : ℚ) * 10 ^ (lowestTerms n e).2 = n * 10 ^ e := by
  unfold lowestTerms
  split
  next h => simp [h]
  next => exact trimZeros_value _ n e

namespace Exact

/-- What an exact number is worth. -/
def value (x : Exact) : ℚ :=
  x.coefficient * 10 ^ x.exponent

/-- **An exact number is worth what it is made of.** -/
theorem value_make (negative : Bool) (n : Nat) (e : Int) :
    (make negative n e).value = (if negative then -(n : ℚ) else n) * 10 ^ e := by
  have h := lowestTerms_value n e
  cases negative with
  | false => simpa [make, value] using h
  | true => simpa [make, value] using h

end Exact

namespace Decimal

/-- What a decimal is worth. -/
def value (d : Decimal) : ℚ :=
  (if d.negative then -(d.coefficient : ℚ) else d.coefficient) * 10 ^ d.exponent

theorem value_exactValue (d : Decimal) : d.exactValue.value = d.value :=
  Exact.value_make _ _ _

/-- The value lies in the range of 64-bit integers. -/
def Narrow (d : Decimal) : Prop :=
  -2 ^ 63 ≤ d.value ∧ d.value < 2 ^ 63

/-- Equality of decimals keeps the range. -/
theorem narrow_congr {d e : Decimal} (h : d.exactValue = e.exactValue) : d.Narrow ↔ e.Narrow := by
  rw [Narrow, Narrow, ← value_exactValue d, ← value_exactValue e, h]

/-- The integer that a decimal with exponent zero is. -/
def integer (d : Decimal) : Int :=
  if d.negative then -(d.coefficient : Int) else d.coefficient

@[simp] theorem integer_ofInt (n : Int) : (ofInt n).integer = n := by
  by_cases hn : n < 0
  · simp only [integer, ofInt, hn, decide_true, if_true]
    omega
  · simp only [integer, ofInt, hn, decide_false, Bool.false_eq_true, if_false]
    omega

theorem value_of_exponent {d : Decimal} (h : d.exponent = 0) : d.value = d.integer := by
  rw [value, h, zpow_zero, mul_one, integer]
  split <;> simp

/-- **A decimal with exponent zero is narrow when its integer is.** -/
theorem narrow_iff {d : Decimal} (h : d.exponent = 0) : d.Narrow ↔ InInt64 d.integer := by
  have hlow : (-2 ^ 63 : ℚ) ≤ d.integer ↔ -2 ^ 63 ≤ d.integer := by
    rw [show (-2 ^ 63 : ℚ) = ((-2 ^ 63 : Int) : ℚ) by norm_num]
    exact Int.cast_le
  have hhigh : (d.integer : ℚ) < 2 ^ 63 ↔ d.integer < 2 ^ 63 := by
    rw [show (2 ^ 63 : ℚ) = ((2 ^ 63 : Int) : ℚ) by norm_num]
    exact Int.cast_lt
  rw [Narrow, value_of_exponent h, InInt64, hlow, hhigh]

/-- Only zero has a sign that its integer does not show, and zero has 64 bits. -/
theorem ofInt_integer {d : Decimal} (h : d.exponent = 0) (hwide : ¬ InInt64 d.integer) :
    ofInt d.integer = d := by
  obtain ⟨negative, c, e⟩ := d
  obtain rfl : e = 0 := h
  unfold InInt64 at hwide
  cases negative with
  | false => simp [ofInt, integer]
  | true =>
    simp only [integer, if_true] at hwide
    simp only [ofInt, integer, if_true, Int.natAbs_neg, Int.natAbs_natCast, mk.injEq,
      decide_eq_true_eq, and_true]
    omega

end Decimal

end Literals.Number
