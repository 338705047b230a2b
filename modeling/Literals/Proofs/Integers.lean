/-
# Integers are exact

A run of digits, with a minus before it or not, is read as the integer that it denotes, however long
it is and however many zeros it starts with (`read_integer`).  Up to `longestInteger` digits the kind
is the narrowest that has room for the value, and **the scalar is printed as the shortest text that
denotes it** (`shortest_intText`).  A longer run is a decimal, which keeps the minus that was written
and loses the zeros in front.
-/
import Literals.Proofs.Limit
import Literals.Proofs.RoundTrip

namespace Literals

open Number Grammar Reader

/-! ## 1. The texts that denote an integer -/

namespace Grammar

/-- The text is digits, with a minus before them or not, and denotes the integer. -/
def Denotes (s : List Char) (n : Int) : Prop :=
  ∃ minus ds, Digits ds ∧ s = minusText minus ++ ds ∧
    n = signedValue minus (Nat.ofDigitChars 10 ds 0)

/-- Of all texts that denote the integer this is the shortest one. -/
def Shortest (s : List Char) (n : Int) : Prop :=
  Denotes s n ∧ ∀ t, Denotes t n → t = s ∨ s.length < t.length

theorem signedValue_natAbs (n : Int) : signedValue (decide (n < 0)) n.natAbs = n :=
  Decimal.integer_ofInt n

theorem denotes_intText (n : Int) : Denotes (intText n) n := by
  refine ⟨decide (n < 0), digits n.natAbs, digits_digits _, intText_eq n, ?_⟩
  rw [← ofDigits_eq, ofDigits_digits, signedValue_natAbs]

/-- **The printed text of an integer is the shortest that denotes it.**  Another one has zeros in
front, or a minus before zero. -/
theorem shortest_intText (n : Int) : Shortest (intText n) n := by
  refine ⟨denotes_intText n, ?_⟩
  rintro _ ⟨minus, ds, hds, rfl, hn⟩
  obtain ⟨k, hk⟩ := exists_zeros_append hds.1 hds.2
  rw [← ofDigits_eq] at hn
  have habs : ofDigits ds = n.natAbs := by
    rw [hn, signedValue]
    split <;> omega
  rw [habs] at hk
  rw [intText_eq, hk]
  by_cases hsame : k = 0 ∧ minus = decide (n < 0)
  · obtain ⟨rfl, rfl⟩ := hsame
    exact Or.inl rfl
  · right
    have hminus : n < 0 → minus = true := by
      rintro hneg
      by_contra hplus
      rw [hn, signedValue, if_neg hplus] at hneg
      omega
    have hlong : (minusText (decide (n < 0))).length < (minusText minus).length + k := by
      rcases lt_or_ge n 0 with hneg | hnonneg
      · have hk : k ≠ 0 := by simpa [hneg, hminus hneg] using hsame
        simp only [hneg, hminus hneg, decide_true]
        omega
      · have hge : ¬ n < 0 := not_lt.mpr hnonneg
        cases minus with
        | true => simp [hge, minusText]
        | false =>
          have hk : k ≠ 0 := by simpa [hge] using hsame
          simp only [hge, decide_false]
          omega
    simp only [List.length_append, List.length_replicate]
    omega

end Grammar

/-! ## 2. The scalar of an integer -/

namespace Scalar

/-- The scalar holds exactly this integer. -/
def IsInteger (n : Int) : Scalar → Prop
  | .int m => m = n
  | .long m => m = n
  | .decimal d => d.value = n
  | _ => False

theorem isInteger_ofInt (n : Int) : (ofInt n).IsInteger n := by
  by_cases h64 : InInt64 n
  · by_cases h32 : InInt32 n
    · rw [ofInt_of_int32 h32, IsInteger]
    · rw [ofInt_of_int64 h64 h32, IsInteger]
  · rw [ofInt_of_wide h64, IsInteger, Decimal.value_of_exponent rfl, Decimal.integer_ofInt]

end Scalar

namespace Grammar

variable {minus : Bool} {ds : List Char}

theorem isInteger_integerScalar :
    (integerScalar minus ds).IsInteger (signedValue minus (ofDigits ds)) := by
  rw [integerScalar]
  split
  · exact Scalar.isInteger_ofInt _
  · exact Decimal.value_of_exponent rfl

/-- A long run of digits is printed with its minus and without the zeros in front. -/
theorem chars_integerScalar_of_long (h : longestInteger < ds.length) :
    (integerScalar minus ds).chars = minusText minus ++ digits (ofDigits ds) := by
  rw [integerScalar, if_neg (Nat.not_le_of_gt h), Scalar.chars, text_of_exponent rfl]

/-- **The digits are those of the number with zeros in front**, and these are superfluous: the rest
does not start with a zero unless it is all that there is. -/
theorem exists_kept (h : Digits ds) :
    ∃ k, ds = List.replicate k '0' ++ digits (ofDigits ds) ∧
      (digits (ofDigits ds) = ['0'] ∨ (digits (ofDigits ds)).head? ≠ some '0') := by
  obtain ⟨k, hk⟩ := exists_zeros_append h.1 h.2
  refine ⟨k, hk, ?_⟩
  rcases Nat.eq_zero_or_pos (ofDigits ds) with hzero | hpos
  · exact Or.inl (hzero ▸ rfl)
  · exact Or.inr (head_digits_ne_zero hpos)

end Grammar

/-! ## 3. Reading integers -/

namespace Reader

/-- Digits are read as their scalar; no limit stands against it. -/
theorem read_digits (minus : Bool) {ds : List Char} (h : Digits ds) (limit : Option Int) :
    read (String.ofList (minusText minus ++ ds)) limit =
      .ok ⟨.scalar (integerScalar minus ds)⟩ := by
  have hitem : Item (minusText minus ++ ds) _ := .integer h
  have hread : read (String.ofList (minusText minus ++ ds)) none = .ok ⟨_⟩ :=
    read_of_expr (by rw [String.toList_ofList]; exact hitem.toExpr)
  rw [read_limited_iff hread, String.toList_ofList]
  exact ⟨rfl, (climbs_integer h).shallow⟩

/-- **Integers are exact.**  A minus or none and digits are read, under every limit, as one scalar
that holds just the integer they denote.  Up to 4300 digits its kind is the narrowest that has room
for the integer and its text the shortest that denotes it.  With more digits it is a decimal, and
its text is what was written without the superfluous zeros. -/
theorem read_integer (minus : Bool) {ds : List Char} (h : Digits ds) (limit : Option Int) :
    let n := signedValue minus (Nat.ofDigitChars 10 ds 0)
    ∃ x : Scalar, read (String.ofList (minusText minus ++ ds)) limit = .ok ⟨.scalar x⟩ ∧
      x.IsInteger n ∧
      (ds.length ≤ 4300 → (InInt32 n → x.kind = .int) ∧
        (InInt64 n → ¬ InInt32 n → x.kind = .long) ∧ (¬ InInt64 n → x.kind = .decimal) ∧
        Shortest (Node.scalar x).text.toList n) ∧
      (4300 < ds.length → x.kind = .decimal ∧
        ∃ k kept, ds = List.replicate k '0' ++ kept ∧ kept ≠ [] ∧
          (kept = ['0'] ∨ kept.head? ≠ some '0') ∧
          (Node.scalar x).text.toList = minusText minus ++ kept) := by
  intro n
  refine ⟨integerScalar minus ds, read_digits minus h limit, isInteger_integerScalar,
    fun hshort => ?_, fun hlong => ?_⟩
  · have hx : integerScalar minus ds = .ofInt n := if_pos hshort
    have htext : (Node.scalar (.ofInt n)).text.toList = intText n :=
      (toList_text _).trans (chars_ofInt n)
    rw [hx, htext]
    refine ⟨fun h32 => ?_, fun h64 h32 => ?_, fun h64 => ?_, shortest_intText n⟩
    · rw [Scalar.ofInt_of_int32 h32, Scalar.kind]
    · rw [Scalar.ofInt_of_int64 h64 h32, Scalar.kind]
    · rw [Scalar.ofInt_of_wide h64, Scalar.kind]
  · have hx : integerScalar minus ds = .decimal ⟨minus, ofDigits ds, 0⟩ :=
      if_neg (Nat.not_le_of_gt hlong)
    obtain ⟨k, hk, hkept⟩ := exists_kept h
    refine ⟨hx ▸ rfl, k, _, hk, digits_ne_nil _, hkept, ?_⟩
    exact (toList_text _).trans (chars_integerScalar_of_long hlong)

/-- Minus zero with zeros in front of it is zero. -/
theorem read_minus_zeros :
    Digits ['0', '0', '0'] ∧
      ∃ x : Scalar, read "-000" none = .ok ⟨.scalar x⟩ ∧ x.IsInteger 0 ∧ x.kind = .int ∧
        Shortest (Node.scalar x).text.toList 0 := by
  have hdigits : Digits ['0', '0', '0'] := ⟨nofun, List.all_eq_true.mp rfl⟩
  obtain ⟨x, hread, hx, hshort, -⟩ := read_integer true hdigits none
  obtain ⟨hint, -, -, htext⟩ := hshort (by decide)
  exact ⟨hdigits, x, hread, hx, hint (by decide), htext⟩

end Reader

end Literals
