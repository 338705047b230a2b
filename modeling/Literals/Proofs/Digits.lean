/-
# Digits and the numbers they denote

The digits of a number denote it again (`ofDigits_digits`), and a run of digits denotes the same
with zeros in front and a power of ten times as much with zeros behind.  How long the run is says
between which powers of ten the number lies, and a run is the digits of what it denotes with zeros in
front (`exists_zeros_append`).
-/
import Mathlib.Data.List.Induction
import Mathlib.Tactic.IntervalCases
import Mathlib.Tactic.Ring
import Literals.Number.Exact

namespace Literals.Number

/-! ## 1. Reading digits back -/

theorem ofDigits_eq (ds : List Char) : ofDigits ds = Nat.ofDigitChars 10 ds 0 := rfl

/-- **The digits of a number denote it.** -/
@[simp] theorem ofDigits_digits (n : Nat) : ofDigits (digits n) = n :=
  Nat.ofDigitChars_ten_toDigits

theorem isDigit_of_mem_digits {n : Nat} {c : Char} (h : c ∈ digits n) : c.isDigit = true :=
  Nat.isDigit_of_mem_toDigits (by decide) (by decide) h

theorem digits_ne_nil (n : Nat) : digits n ≠ [] :=
  Nat.toDigits_ne_nil

/-- Zeros in front change nothing. -/
@[simp] theorem ofDigits_replicate_append (k : Nat) (ds : List Char) :
    ofDigits (List.replicate k '0' ++ ds) = ofDigits ds := by
  rw [ofDigits_eq, Nat.ofDigitChars_append, Nat.ofDigitChars_replicate_zero, Nat.mul_zero]
  rfl

@[simp] theorem ofDigits_zero_cons (ds : List Char) : ofDigits ('0' :: ds) = ofDigits ds :=
  ofDigits_replicate_append 1 ds

/-- Every zero behind multiplies by ten. -/
@[simp] theorem ofDigits_append_replicate (ds : List Char) (k : Nat) :
    ofDigits (ds ++ List.replicate k '0') = ofDigits ds * 10 ^ k := by
  rw [ofDigits_eq, Nat.ofDigitChars_append, Nat.ofDigitChars_replicate_zero, Nat.mul_comm]
  rfl

/-! ## 2. How many digits -/

/-- **So many digits are enough exactly below that power of ten.** -/
theorem length_digits_le_iff {n k : Nat} (hk : 0 < k) : (digits n).length ≤ k ↔ n < 10 ^ k :=
  Nat.length_toDigits_le_iff (by decide) hk

theorem length_digits_pos (n : Nat) : 0 < (digits n).length :=
  List.length_pos_iff.mpr (digits_ne_nil n)

theorem lt_pow_length_digits (n : Nat) : n < 10 ^ (digits n).length :=
  (length_digits_le_iff (length_digits_pos n)).mp le_rfl

/-- The first digit of a positive number is not wasted. -/
theorem lt_length_digits {n k : Nat} (h : 10 ^ k ≤ n) : k < (digits n).length := by
  rcases Nat.eq_zero_or_pos k with rfl | hk
  · exact length_digits_pos n
  · by_contra hle
    exact absurd ((length_digits_le_iff hk).mp (Nat.le_of_not_lt hle)) (Nat.not_lt.mpr h)

/-- Ten times a positive number has one digit more. -/
theorem length_digits_mul_ten {n : Nat} (h : n ≠ 0) :
    (digits (10 * n)).length = (digits n).length + 1 := by
  have hlen := length_digits_pos n
  have hle : (digits (10 * n)).length ≤ (digits n).length + 1 := by
    rw [length_digits_le_iff (Nat.succ_pos _), Nat.pow_succ]
    have := lt_pow_length_digits n
    omega
  have hge : 10 ^ (digits n).length ≤ 10 * n := by
    obtain ⟨k, hk⟩ : ∃ k, (digits n).length = k + 1 := ⟨_, (Nat.sub_add_cancel hlen).symm⟩
    have hpow : 10 ^ k ≤ n := by
      rcases Nat.eq_zero_or_pos k with rfl | hpos
      · exact Nat.one_le_iff_ne_zero.mpr h
      · by_contra hlt
        have := (length_digits_le_iff hpos).mpr (Nat.lt_of_not_le hlt)
        omega
    rw [hk, Nat.pow_succ, Nat.mul_comm]
    exact Nat.mul_le_mul_left 10 hpow
  exact Nat.le_antisymm hle (lt_length_digits hge)

/-! ## 3. Zeros in front -/

theorem ofDigits_append_singleton (ds : List Char) (c : Char) :
    ofDigits (ds ++ [c]) = 10 * ofDigits ds + (c.toNat - '0'.toNat) := by
  simp [ofDigits]

/-- A digit is all the digits of what it denotes. -/
theorem digits_of_isDigit {c : Char} (h : c.isDigit = true) :
    digits (c.toNat - '0'.toNat) = [c] := by
  simp only [Char.isDigit, Bool.and_eq_true, decide_eq_true_eq, ge_iff_le,
    UInt32.le_iff_toNat_le] at h
  have hlow : 48 ≤ c.toNat := h.1
  have hhigh : c.toNat ≤ 57 := h.2
  have hc : c = Char.ofNat c.toNat := (Char.ofNat_toNat c).symm
  generalize c.toNat = n at hlow hhigh hc
  subst hc
  interval_cases n <;> rfl

/-- A digit behind those of a positive number. -/
theorem digits_append_singleton {n : Nat} (hn : 0 < n) {c : Char} (hc : c.isDigit = true) :
    digits n ++ [c] = digits (10 * n + (c.toNat - '0'.toNat)) := by
  have hdigit := digits_of_isDigit hc
  have hlt : c.toNat - '0'.toNat < 10 ^ 1 := by
    rw [← length_digits_le_iff Nat.one_pos, hdigit]
    exact le_rfl
  rw [← hdigit]
  exact Nat.toDigits_append_toDigits (by decide) hn hlt

/-- A positive number does not start with a zero. -/
theorem head_digits_ne_zero {n : Nat} (h : 0 < n) : (digits n).head? ≠ some '0' := by
  induction n using Nat.strong_induction_on with
  | _ n ih =>
    rcases Nat.lt_or_ge n 10 with hlt | hge
    · rw [digits, Nat.toDigits_of_lt_base hlt]
      interval_cases n <;> decide
    · have hhead : (digits n).head? = (digits (n / 10)).head? := by
        rw [digits, Nat.toDigits_of_base_le (by decide) hge, List.head?_append]
        exact Option.or_of_isSome (List.isSome_head?.mpr (digits_ne_nil (n / 10)))
      rw [hhead]
      exact ih (n / 10) (by omega) (by omega)

/-- **A run of digits is what it denotes, with zeros in front.** -/
theorem exists_zeros_append {ds : List Char} (hne : ds ≠ []) (h : ∀ c ∈ ds, c.isDigit = true) :
    ∃ k, ds = List.replicate k '0' ++ digits (ofDigits ds) := by
  induction ds using List.reverseRecOn with
  | nil => exact absurd rfl hne
  | append_singleton ds c ih =>
    have hc : c.isDigit = true := h c (by simp)
    have hprefix : ds ≠ [] → ∃ k, ds = List.replicate k '0' ++ digits (ofDigits ds) :=
      fun hne => ih hne fun d hd => h d (List.mem_append_left _ hd)
    rw [ofDigits_append_singleton]
    rcases Nat.eq_zero_or_pos (ofDigits ds) with hzero | hpos
    · have hzeros : ∃ k, ds = List.replicate k '0' := by
        by_cases hnil : ds = []
        · exact ⟨0, hnil⟩
        · obtain ⟨k, hk⟩ := hprefix hnil
          rw [hzero] at hk
          exact ⟨k + 1, hk.trans List.replicate_succ'.symm⟩
      obtain ⟨k, hk⟩ := hzeros
      rw [hzero, Nat.mul_zero, Nat.zero_add, digits_of_isDigit hc]
      exact ⟨k, congrArg (· ++ [c]) hk⟩
    · have hne : ds ≠ [] := by
        rintro rfl
        exact absurd hpos (by decide)
      obtain ⟨k, hk⟩ := hprefix hne
      refine ⟨k, ?_⟩
      rw [← digits_append_singleton hpos hc, ← List.append_assoc, ← hk]

end Literals.Number
