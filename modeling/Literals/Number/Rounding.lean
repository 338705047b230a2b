/-
# Rounding a quotient to a whole number

One function, two laws: **the result is one of the two neighbours** (`le_halfEven`,
`halfEven_le`), and **a quotient that is whole is left alone** (`halfEven_mul_self`).  Both the
reading of decimals and the choice of digits to print rest on it.
-/

namespace Literals.Number

/-- The whole number nearest `n / d`; a half goes to the even neighbour. -/
def halfEven (n d : Nat) : Nat :=
  let q := n / d
  let r := n % d
  if 2 * r < d ∨ (2 * r = d ∧ q % 2 = 0) then q else q + 1

theorem le_halfEven (n d : Nat) : n / d ≤ halfEven n d := by
  unfold halfEven
  dsimp only
  split <;> omega

theorem halfEven_le (n d : Nat) : halfEven n d ≤ n / d + 1 := by
  unfold halfEven
  dsimp only
  split <;> omega

theorem halfEven_mul_self (q : Nat) {d : Nat} (h : 0 < d) : halfEven (q * d) d = q := by
  unfold halfEven
  rw [Nat.mul_div_cancel q h, Nat.mul_mod_left]
  exact if_pos (Or.inl h)

/-- Only the value of the quotient matters, not how it is written as a fraction. -/
theorem halfEven_mul_mul_left (c n d : Nat) (h : 0 < c) :
    halfEven (c * n) (c * d) = halfEven n d := by
  unfold halfEven
  rw [Nat.mul_div_mul_left n d h, Nat.mul_mod_mul_left]
  have hlt : 2 * (c * (n % d)) < c * d ↔ 2 * (n % d) < d := by
    rw [Nat.mul_left_comm]
    exact Nat.mul_lt_mul_left h
  have heq : 2 * (c * (n % d)) = c * d ↔ 2 * (n % d) = d := by
    rw [Nat.mul_left_comm]
    exact Nat.mul_right_inj (Nat.pos_iff_ne_zero.1 h)
  simp only [hlt, heq]

end Literals.Number
