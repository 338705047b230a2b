/-
# Shortest digits read back

The digits that are chosen for a finite magnitude are read as that magnitude again.  Most grids
are tried by reading, so nothing is to be shown there; what remains is that **all digits of a
magnitude read back** (`ofDecimal_allDigits`), which makes the search total, and that **the value
of a decimal does not depend on how it is written** (`ofDecimal_mul_pow`), so that trailing zeros
may be dropped or added.
-/
import Literals.Number.FloatText
import Literals.Proofs.Digits

namespace Literals.Number

/-! ## 1. Rounding a quotient -/

namespace Magnitude

/-- Only the value of the quotient matters. -/
theorem nearest?_mul_mul_left {k : Nat} (hk : 0 < k) (n d : Nat) :
    nearest? (k * n) (k * d) = nearest? n d := by
  simp only [nearest?, Nat.mul_div_mul_left n d hk, Nat.mul_assoc, halfEven_mul_mul_left _ _ _ hk]

theorem units_eq_zero {x : Magnitude} (h : x.units = 0) : x = zero := by
  obtain ⟨m, s, hm, hs, hcanon⟩ := x
  have hm0 : m = 0 := by simpa [units] using h
  subst hm0
  obtain rfl : s = 0 := by
    rcases hcanon with hfull | hs0
    · exact absurd hfull (by decide)
    · exact hs0
  rfl

/-- The shift of a magnitude can be told from its units. -/
theorem log2_units (x : Magnitude) : x.units.log2 - 52 = x.shift := by
  obtain ⟨m, s, hm, hs, hcanon⟩ := x
  rcases hcanon with hfull | rfl
  · have hne : m * 2 ^ s ≠ 0 := Nat.mul_ne_zero (by omega) (Nat.two_pow_pos s).ne'
    have hlog : (m * 2 ^ s).log2 = 52 + s := by
      refine (Nat.log2_eq_iff hne).mpr ⟨?_, ?_⟩
      · rw [Nat.pow_add]
        exact Nat.mul_le_mul_right _ hfull
      · rw [Nat.add_right_comm, Nat.pow_add]
        exact Nat.mul_lt_mul_of_pos_right hm (Nat.two_pow_pos s)
    simp [units, hlog]
  · rcases Nat.eq_zero_or_pos m with rfl | hpos
    · rfl
    · have hlog : m.log2 < 53 := (Nat.log2_lt hpos.ne').mpr hm
      simp only [units, Nat.pow_zero, Nat.mul_one]
      omega

/-- **A quotient that is a magnitude is rounded to that magnitude.** -/
theorem nearest?_units (x : Magnitude) {d : Nat} (hd : 0 < d) :
    nearest? (x.units * d) d = some x := by
  have hmant : halfEven (x.units * d) (d * 2 ^ x.shift) = x.mantissa := by
    rw [show x.units * d = x.mantissa * (d * 2 ^ x.shift) by simp only [units]; ring]
    exact halfEven_mul_self _ (Nat.mul_pos hd (Nat.two_pow_pos _))
  have hne : x.mantissa ≠ 2 ^ 53 := Nat.ne_of_lt x.canonical.1
  simp only [nearest?, Nat.mul_div_cancel _ hd, log2_units, hmant, if_neg hne,
    dif_pos x.canonical]

end Magnitude

/-! ## 2. Reading decimals -/

namespace Binary64

/-- The sign of a decimal is the sign of what is read. -/
theorem ofDecimal_of_false {c : Nat} {e : Int} {size : Magnitude}
    (h : ofDecimal false c e = .finite false size) (negative : Bool) :
    ofDecimal negative c e = .finite negative size := by
  unfold ofDecimal at h ⊢
  split at h
  next hc =>
    cases h
    exact if_pos hc
  next hc =>
    rw [if_neg hc]
    dsimp only at h ⊢
    split at h
    next => cases h
    next hhigh =>
      rw [if_neg hhigh]
      split at h
      next hlow =>
        cases h
        exact if_pos hlow
      next hlow =>
        rw [if_neg hlow]
        split at h
        next => cases h; rfl
        next => cases h

theorem ofDecimal_zero (negative : Bool) (e : Int) :
    ofDecimal negative 0 e = .finite negative .zero :=
  if_pos rfl

theorem isNaN_ofDecimal (negative : Bool) (c : Nat) (e : Int) :
    (ofDecimal negative c e).isNaN = false := by
  unfold ofDecimal
  split
  · rfl
  · dsimp only
    split
    · rfl
    · split
      · rfl
      · split <;> rfl

/-- A zero moves from the coefficient to the exponent, in the quotient that is rounded. -/
theorem nearest?_mul_ten (c unit : Nat) (e : Int) :
    (if 0 ≤ e then Magnitude.nearest? (10 * c * 10 ^ e.toNat * unit) 1
      else Magnitude.nearest? (10 * c * unit) (10 ^ (-e).toNat)) =
    if 0 ≤ e + 1 then Magnitude.nearest? (c * 10 ^ (e + 1).toNat * unit) 1
      else Magnitude.nearest? (c * unit) (10 ^ (-(e + 1)).toNat) := by
  by_cases he : 0 ≤ e
  · rw [if_pos he, if_pos (by omega), show (e + 1).toNat = e.toNat + 1 by omega, Nat.pow_succ]
    congr 1
    ring
  · rw [if_neg he]
    have hpow : 10 ^ (-e).toNat = 10 * 10 ^ (-(e + 1)).toNat := by
      rw [show (-e).toNat = (-(e + 1)).toNat + 1 by omega, Nat.pow_succ, Nat.mul_comm]
    rw [hpow, Nat.mul_assoc, Magnitude.nearest?_mul_mul_left (by decide)]
    by_cases he' : 0 ≤ e + 1
    · rw [if_pos he', show (-(e + 1)).toNat = 0 by omega, show (e + 1).toNat = 0 by omega]
      simp
    · rw [if_neg he']

theorem ofDecimal_mul_ten (negative : Bool) (c : Nat) (e : Int) :
    ofDecimal negative (10 * c) e = ofDecimal negative c (e + 1) := by
  by_cases hc : c = 0
  · rw [hc, Nat.mul_zero, ofDecimal_zero, ofDecimal_zero]
  · have hplace : ((digits (10 * c)).length : Int) + e = (digits c).length + (e + 1) := by
      rw [length_digits_mul_ten hc]
      omega
    simp only [ofDecimal, if_neg hc, if_neg (show ¬ 10 * c = 0 by omega), hplace,
      nearest?_mul_ten]

/-- **Zeros may be moved from the coefficient to the exponent.** -/
theorem ofDecimal_mul_pow (negative : Bool) (c k : Nat) (e : Int) :
    ofDecimal negative (c * 10 ^ k) e = ofDecimal negative c (e + k) := by
  induction k generalizing e with
  | zero => simp
  | succ k ih =>
    rw [Nat.pow_succ, ← Nat.mul_assoc, Nat.mul_comm _ 10, ofDecimal_mul_ten, ih]
    congr 1
    omega

theorem ofDecimal_trimZeros (negative : Bool) (fuel c : Nat) (e : Int) :
    ofDecimal negative (trimZeros fuel c e).1 (trimZeros fuel c e).2 = ofDecimal negative c e := by
  induction fuel generalizing c e with
  | zero => rfl
  | succ fuel ih =>
    unfold trimZeros
    split
    next h => rw [ih, ← ofDecimal_mul_ten, Nat.mul_div_cancel' (Nat.dvd_of_mod_eq_zero h)]
    next => rfl

/-- A decimal is read the same in lowest terms. -/
theorem ofDecimal_lowestTerms (negative : Bool) (c : Nat) (e : Int) :
    ofDecimal negative (lowestTerms c e).1 (lowestTerms c e).2 = ofDecimal negative c e := by
  unfold lowestTerms
  split
  next h => rw [h, ofDecimal_zero, ofDecimal_zero]
  next => exact ofDecimal_trimZeros negative _ c e

/-- A decimal whose first digit stands at a possible place is rounded. -/
theorem ofDecimal_of_place {c : Nat} {e : Int} {size : Magnitude} (hc : c ≠ 0)
    (hhigh : ((digits c).length : Int) + e ≤ 310) (hlow : -330 ≤ ((digits c).length : Int) + e)
    (h : (if 0 ≤ e then Magnitude.nearest? (c * 10 ^ e.toNat * 2 ^ 1074) 1
      else Magnitude.nearest? (c * 2 ^ 1074) (10 ^ (-e).toNat)) = some size) :
    ofDecimal false c e = .finite false size := by
  rw [ofDecimal, if_neg hc]
  dsimp only
  rw [if_neg (Int.not_lt.mpr hhigh), if_neg (Int.not_lt.mpr hlow)]
  simp only [h]

end Binary64

/-! ## 3. Choosing digits -/

section Choice

open Binary64

variable {size : Magnitude}

/-- All digits of a whole number of units with a large shift. -/
theorem ofDecimal_of_le_shift (h : size.units ≠ 0) (hs : 1074 ≤ size.shift) :
    ofDecimal false (size.mantissa * 2 ^ (size.shift - 1074)) 0 = .finite false size := by
  have hunits : size.mantissa * 2 ^ (size.shift - 1074) * 2 ^ 1074 = size.units := by
    rw [Nat.mul_assoc, ← Nat.pow_add, Nat.sub_add_cancel hs]
    rfl
  have hc : size.mantissa * 2 ^ (size.shift - 1074) ≠ 0 := by
    intro h0
    rw [h0, Nat.zero_mul] at hunits
    exact h hunits.symm
  have hlen : (digits (size.mantissa * 2 ^ (size.shift - 1074))).length ≤ 309 := by
    rw [length_digits_le_iff (by decide)]
    have hmax := size.canonical.2.1
    have hshift := Nat.pow_le_pow_right Nat.two_pos (show size.shift - 1074 ≤ 971 by omega)
    calc size.mantissa * 2 ^ (size.shift - 1074) ≤ 2 ^ 53 * 2 ^ 971 :=
          Nat.mul_le_mul size.canonical.1.le hshift
      _ < 10 ^ 309 := by decide +kernel
  refine ofDecimal_of_place hc (by omega) (by omega) ?_
  rw [if_pos le_rfl, Int.toNat_zero, Nat.pow_zero, Nat.mul_one, hunits, ← Nat.mul_one size.units]
  exact Magnitude.nearest?_units size Nat.one_pos

theorem ten_pow_eq (k : Nat) : 10 ^ k = 2 ^ k * 5 ^ k := by
  rw [← Nat.mul_pow]

/-- Halving a mantissa `k` times gives no more than `k` further digits. -/
theorem length_digits_mul_five_pow {m : Nat} (hm : m < 2 ^ 53) (k : Nat) :
    (digits (m * 5 ^ k)).length ≤ 16 + k := by
  have hfive : 0 < 5 ^ k := Nat.pow_pos (by decide)
  have hmant : m < 10 ^ 16 := hm.trans (by decide)
  have hpow : 5 ^ k ≤ 10 ^ k := Nat.pow_le_pow_left (by decide) k
  rw [length_digits_le_iff (by omega), Nat.pow_add]
  calc m * 5 ^ k < 10 ^ 16 * 5 ^ k := Nat.mul_lt_mul_of_pos_right hmant hfive
    _ ≤ 10 ^ 16 * 10 ^ k := Nat.mul_le_mul_left _ hpow

/-- Nor do the digits become much fewer than `k`, as long as units are halved. -/
theorem le_length_digits_mul_five_pow {m k : Nat} (hm : 0 < m) (hk : k ≤ 1074) :
    k ≤ (digits (m * 5 ^ k)).length + 330 := by
  by_contra hlt
  have hbound : 2 ^ 1074 ≤ 10 ^ 330 := by decide +kernel
  have htwo : 2 ^ k ≤ 10 ^ 330 := (pow_le_pow_right₀ one_le_two hk).trans hbound
  have hsplit : 10 ^ (k - 330) * 10 ^ 330 ≤ 5 ^ k * 10 ^ 330 := by
    rw [← Nat.pow_add, Nat.sub_add_cancel (by omega), ten_pow_eq, Nat.mul_comm]
    exact Nat.mul_le_mul_left _ htwo
  have hpow : 10 ^ (k - 330) ≤ m * 5 ^ k :=
    (Nat.le_of_mul_le_mul_right hsplit (pow_pos (by decide) 330)).trans
      (Nat.le_mul_of_pos_left _ hm)
  have := lt_length_digits hpow
  omega

/-- All digits of a number of units with a small shift: a unit is a decimal, for the half of a
decimal is one. -/
theorem ofDecimal_of_shift_le (h : size.units ≠ 0) {k : Nat} (hk : size.shift + k = 1074) :
    ofDecimal false (size.mantissa * 5 ^ k) (-(k : Int)) = .finite false size := by
  have hm : size.mantissa ≠ 0 := by
    intro h0
    exact h (by rw [Magnitude.units, h0, Nat.zero_mul])
  have hfive : 5 ^ k ≠ 0 := (Nat.pow_pos (by decide)).ne'
  have hhigh := length_digits_mul_five_pow size.canonical.1 k
  have hlow := le_length_digits_mul_five_pow (Nat.pos_of_ne_zero hm) (k := k) (by omega)
  have hunits : size.mantissa * 5 ^ k * 2 ^ 1074 = size.units * 10 ^ k := by
    rw [ten_pow_eq, ← hk, Nat.pow_add, Magnitude.units]
    ring
  refine ofDecimal_of_place (Nat.mul_ne_zero hm hfive) (by omega) (by omega) ?_
  rcases Nat.eq_zero_or_pos k with rfl | hpos
  · rw [if_pos (by omega)]
    simp only [Nat.pow_zero, Nat.mul_one] at hunits
    rw [show (-((0 : Nat) : Int)).toNat = 0 by omega, Nat.pow_zero, Nat.pow_zero, Nat.mul_one,
      Nat.mul_one, hunits, ← Nat.mul_one size.units]
    exact Magnitude.nearest?_units size Nat.one_pos
  · rw [if_neg (by omega), show (-(-(k : Int))).toNat = k by omega, hunits]
    exact Magnitude.nearest?_units size (Nat.pow_pos (by decide))

/-- **All digits of a magnitude read back.** -/
theorem ofDecimal_allDigits (h : size.units ≠ 0) :
    ofDecimal false (allDigits size).1 (allDigits size).2 = .finite false size := by
  unfold allDigits
  split
  next hs => exact ofDecimal_of_le_shift h hs
  next hs => exact ofDecimal_of_shift_le h (by omega)

theorem ofDecimal_of_onGrid? {n d : Nat} {e : Int} {r : Nat × Int}
    (h : onGrid? size n d e = some r) : ofDecimal false r.1 r.2 = .finite false size := by
  have hback : ∀ {c : Nat}, readsBack size c e = true →
      ofDecimal false c e = .finite false size := fun hr => beq_iff_eq.mp hr
  have hchoice : ∀ a b : Nat, (if readsBack size a e then some (a, e)
      else if readsBack size b e then some (b, e) else none) = some r →
        ofDecimal false r.1 r.2 = .finite false size := by
    intro a b hr
    split at hr
    next ha =>
      obtain rfl := Option.some.inj hr
      exact hback ha
    next =>
      split at hr
      next hb =>
        obtain rfl := Option.some.inj hr
        exact hback hb
      next => cases hr
  exact hchoice _ _ h

theorem ofDecimal_firstGrid (h : size.units ≠ 0) (n d : Nat) (place : Int) (counts : List Nat) :
    ofDecimal false (firstGrid size n d place counts).1 (firstGrid size n d place counts).2 =
      .finite false size := by
  induction counts with
  | nil => exact ofDecimal_allDigits h
  | cons count counts ih =>
    unfold firstGrid
    split
    next r hr => exact ofDecimal_of_onGrid? hr
    next => exact ih

/-- **The digits that are chosen for a magnitude read back**, under either sign. -/
theorem ofDecimal_shortest (negative : Bool) (size : Magnitude) :
    ofDecimal negative (shortest size).1 (shortest size).2 = .finite negative size := by
  unfold shortest
  dsimp only
  split
  next h => rw [ofDecimal_zero, Magnitude.units_eq_zero h]
  next h =>
    rw [ofDecimal_lowestTerms]
    exact ofDecimal_of_false (ofDecimal_firstGrid h _ _ _ _) negative

end Choice

end Literals.Number
