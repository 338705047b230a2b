/-
# Printed numbers are numerals

Every text that is printed for a floating-point number is a numeral, and denotes that number.  A
layout decides where the point stands and whether an exponent is written; **none of this changes
the decimal that is denoted** (`LaysOut`), and the decimal reads back because its digits do.
Integers are printed as their digits, with a minus where they need one.
-/
import Literals.Proofs.Grammar
import Literals.Proofs.Shortest
import Literals.Node.Printer

namespace Literals.Number

open Grammar

/-! ## 1. Layouts -/

/-- The numeral is written with this text, without a sign and not as an integer, and denotes
`c * 10 ^ e`. -/
structure LaysOut (x : Numeral) (c : Nat) (e : Int) (text : List Char) : Prop where
  sign_eq : x.sign = .absent
  text_eq : x.text = text
  wellFormed : x.WellFormed
  mark : ∃ d ∈ text, d = '.' ∨ d = 'e' ∨ d = 'E'
  denotes : ∀ negative, Binary64.ofDecimal negative x.coefficient x.scale =
    Binary64.ofDecimal negative c e

theorem isDigit_of_mem_replicate {k : Nat} {c : Char} (h : c ∈ List.replicate k '0') :
    c.isDigit = true := by
  rw [List.eq_of_mem_replicate h]
  rfl

variable (style : FloatStyle) (c : Nat) (e : Int)

variable {c e} in
/-- A numeral with a point and without an exponent denotes its digits, as many of them behind the
point as there are. -/
theorem laysOut_point (whole : List Char) {fraction : List Char} (hne : whole ++ fraction ≠ [])
    (hds : ∀ d ∈ whole ++ fraction, d.isDigit = true)
    (h : ∀ negative, Binary64.ofDecimal negative (ofDigits (whole ++ fraction))
      (-(fraction.length : Int)) = Binary64.ofDecimal negative c e) :
    LaysOut ⟨.absent, whole, some fraction, none⟩ c e (whole ++ '.' :: fraction) where
  sign_eq := rfl
  text_eq := by simp [Numeral.text, Numeral.exponentText, Sign.text]
  wellFormed := ⟨hne, hds, by simp⟩
  mark := ⟨'.', by simp, Or.inl rfl⟩
  denotes negative := by
    rw [← h negative, ← Int.zero_sub]
    rfl

/-- Digits with a point, among them or before them, and zeros where the point needs them. -/
theorem exists_positional (hkeep : style.keepsPointZero = true) :
    ∃ x, LaysOut x c e (positional style (digits c) (e + (digits c).length)) := by
  have hne := digits_ne_nil c
  have hds : ∀ {d : Char}, d ∈ digits c → d.isDigit = true := isDigit_of_mem_digits
  simp only [positional, if_pos hkeep]
  split
  next hpoint =>
    refine ⟨_, laysOut_point ['0'] (List.cons_ne_nil '0' _) (fun d hd => ?_) fun negative => ?_⟩
    · rw [List.singleton_append] at hd
      rcases List.mem_cons.mp hd with rfl | hd
      · rfl
      · rcases List.mem_append.mp hd with hd | hd
        · exact isDigit_of_mem_replicate hd
        · exact hds hd
    · rw [List.singleton_append, ofDigits_zero_cons, ofDigits_replicate_append, ofDigits_digits,
        List.length_append, List.length_replicate]
      congr 1
      omega
  next hpoint =>
    split
    next hlen =>
      obtain ⟨k, hk⟩ : ∃ k, k = (e + (digits c).length).toNat - (digits c).length := ⟨_, rfl⟩
      have he : e = k := by omega
      have hzeros : digits c ++ List.replicate k '0' ++ ['0'] =
          digits c ++ List.replicate (k + 1) '0' := by
        rw [List.append_assoc, ← List.replicate_succ']
      rw [← hk]
      refine ⟨_, laysOut_point _ (by simp) (fun d hd => ?_) fun negative => ?_⟩
      · rw [hzeros] at hd
        rcases List.mem_append.mp hd with hd | hd
        · exact hds hd
        · exact isDigit_of_mem_replicate hd
      · rw [hzeros, ofDigits_append_replicate, ofDigits_digits, Binary64.ofDecimal_mul_pow]
        congr 1
        simp only [List.length_singleton]
        omega
    next hlen =>
      refine ⟨_, laysOut_point _ ?_ (fun d hd => ?_) fun negative => ?_⟩
      · rwa [List.take_append_drop]
      · rw [List.take_append_drop] at hd
        exact hds hd
      · rw [List.take_append_drop, ofDigits_digits, List.length_drop]
        congr 1
        omega

/-- The exponent that is written for `n`. -/
def exponentPart (n : Int) : Char × Sign × List Char :=
  ('e', if n < 0 then .minus else .plus,
    List.replicate (style.exponentDigits - (digits n.natAbs).length) '0' ++ digits n.natAbs)

theorem exponentPart_proper (n : Int) : Numeral.ProperExponent (exponentPart style n) := by
  refine ⟨Or.inl rfl, by simp [exponentPart, digits_ne_nil], fun d hd => ?_⟩
  exact (List.mem_append.mp hd).elim isDigit_of_mem_replicate isDigit_of_mem_digits

/-- The power of ten that an exponent stands for. -/
def Numeral.power : Option (Char × Sign × List Char) → Int
  | none => 0
  | some (_, .minus, ds) => -(ofDigits ds : Int)
  | some (_, _, ds) => ofDigits ds

theorem Numeral.scale_eq (x : Numeral) :
    x.scale = power x.exponent - x.fractionDigits.length := by
  obtain ⟨_, _, _, e⟩ := x
  rcases e with _ | ⟨_, sign, _⟩
  · rfl
  · cases sign <;> rfl

theorem power_exponentPart (n : Int) : Numeral.power (some (exponentPart style n)) = n := by
  unfold exponentPart
  split
  next h =>
    simp only [Numeral.power, ofDigits_replicate_append, ofDigits_digits]
    omega
  next h =>
    simp only [Numeral.power, ofDigits_replicate_append, ofDigits_digits]
    omega

/-- One digit, the others behind a point where there are others, and the exponent. -/
theorem scientific_cons (d : Char) (rest : List Char) (n : Int) :
    scientific style (d :: rest) n = d :: ((if rest = [] then none else some rest).elim []
      ('.' :: ·) ++ Numeral.exponentText (some (exponentPart style n))) := by
  have hsign : (if n < 0 then '-' else '+') :: (exponentPart style n).2.2 =
      (exponentPart style n).2.1.text ++ (exponentPart style n).2.2 := by
    by_cases hn : n < 0
    · simp only [exponentPart, if_pos hn]
      rfl
    · simp only [exponentPart, if_neg hn]
      rfl
  have hmark : 'e' :: (if n < 0 then '-' else '+') :: (exponentPart style n).2.2 =
      Numeral.exponentText (some (exponentPart style n)) := congrArg ('e' :: ·) hsign
  cases rest with
  | nil => exact congrArg (d :: ·) hmark
  | cons b rest =>
    rw [if_neg nofun, ← hmark]
    rfl

theorem exists_scientific :
    ∃ x, LaysOut x c e (scientific style (digits c) (e + (digits c).length - 1)) := by
  obtain ⟨d, rest, hdigits⟩ := List.exists_cons_of_ne_nil (digits_ne_nil c)
  obtain ⟨fraction, hfraction⟩ : ∃ f, f = if rest = [] then none else some rest := ⟨_, rfl⟩
  have hrest : fraction.getD [] = rest := by
    rw [hfraction]
    cases rest <;> rfl
  have hall : [d] ++ fraction.getD [] = digits c := by
    rw [hrest, hdigits]
    rfl
  rw [hdigits, scientific_cons, ← hdigits, ← hfraction]
  refine ⟨⟨.absent, [d], fraction, some (exponentPart style (e + (digits c).length - 1))⟩, rfl, ?_,
    ⟨nofun, fun b hb => ?_, ?_⟩, ⟨'e', ?_, Or.inr (Or.inl rfl)⟩, fun negative => ?_⟩
  · simp [Numeral.text, Sign.text]
  · exact isDigit_of_mem_digits (n := c) (hall ▸ hb)
  · rintro x ⟨⟩
    exact exponentPart_proper style _
  · simp [Numeral.exponentText, exponentPart]
  · have hlen : (digits c).length = rest.length + 1 := by rw [hdigits, List.length_cons]
    have hcoefficient : ofDigits ([d] ++ fraction.getD []) = c := by rw [hall, ofDigits_digits]
    have hscale : e + (digits c).length - 1 - rest.length = e := by omega
    simp only [Numeral.scale_eq, Numeral.coefficient, Numeral.fractionDigits]
    rw [hcoefficient, power_exponentPart, hrest, hscale]

/-! ## 2. Floating-point numbers -/

/-- The digits of a magnitude, in the layout of literals. -/
theorem exists_magnitudeText (size : Magnitude) :
    ∃ x, LaysOut x (shortest size).1 (shortest size).2 (magnitudeText .literal size) := by
  unfold magnitudeText
  dsimp only
  split
  next =>
    rw [Int.sub_add_cancel]
    exact exists_positional .literal _ _ rfl
  next => exact exists_scientific .literal _ _

/-- The numeral with another sign. -/
def Numeral.signed (s : Sign) (x : Numeral) : Numeral :=
  { x with sign := s }

theorem Numeral.signed_text {x : Numeral} (h : x.sign = .absent) (s : Sign) :
    (x.signed s).text = s.text ++ x.text := by
  simp [signed, text, h, Sign.text]

theorem LaysOut.signed_value {x : Numeral} {c : Nat} {e : Int} {text : List Char}
    (h : LaysOut x c e text) (s : Sign) :
    (x.signed s).value = Binary64.ofDecimal (s == .minus) c e :=
  h.denotes _

/-- How an infinity is written, but for its sign. -/
def overflowing : Numeral :=
  ⟨.absent, ['1'], none, some ('e', .absent, ['3', '0', '0', '0', '0'])⟩

theorem overflowing_wellFormed : overflowing.WellFormed := by
  refine ⟨by decide, List.all_eq_true.mp (by decide), ?_⟩
  rintro _ ⟨⟩
  exact ⟨Or.inl rfl, by decide, List.all_eq_true.mp (by decide)⟩

theorem overflowing_value (s : Sign) :
    (overflowing.signed s).value = .infinite (s == .minus) := by
  have hplace : (310 : Int) < (digits 1).length + (30000 : Nat) := by decide
  change Binary64.ofDecimal (s == .minus) 1 (30000 : Nat) = _
  rw [Binary64.ofDecimal, if_neg Nat.one_ne_zero]
  exact if_pos hplace

/-- **The text of a number is a numeral that denotes it**, under every sign that it may be given. -/
theorem exists_numeral {v : Binary64} (hv : v.isNaN = false) :
    ∃ (x : Numeral) (negative : Bool), x.sign = .absent ∧ x.WellFormed ∧
      (∃ c ∈ x.text, c = '.' ∨ c = 'e' ∨ c = 'E') ∧
      v.text .literal = minusText negative ++ x.text ∧
      ∀ s : Sign, (s == .minus) = negative → (x.signed s).value = v := by
  cases v with
  | finite negative size =>
    obtain ⟨x, hx⟩ := exists_magnitudeText size
    refine ⟨x, negative, hx.sign_eq, hx.wellFormed, hx.text_eq ▸ hx.mark, ?_, fun s hs => ?_⟩
    · rw [hx.text_eq]
      rfl
    · rw [hx.signed_value, hs, ofDecimal_shortest]
  | infinite negative =>
    refine ⟨overflowing, negative, rfl, overflowing_wellFormed, ⟨'e', by decide, by decide⟩, ?_,
      fun s hs => ?_⟩
    · cases negative <;> rfl
    · rw [overflowing_value, hs]
  | nan mark => cases hv

end Literals.Number

namespace Literals.Grammar

open Number Reader

/-! ## 2. Numbers as literals -/

/-- The text of a number is a literal that denotes it, with a minus or no sign at all. -/
theorem exists_real {v : Binary64} (hv : v.isNaN = false) :
    ∃ x : Numeral, x.WellFormed ∧ x.sign ≠ .plus ∧
      (∃ c ∈ x.text, c = '.' ∨ c = 'e' ∨ c = 'E') ∧ x.text = v.text .literal ∧ x.value = v := by
  obtain ⟨x, negative, hsign, hx, ⟨c, hc, hmark⟩, htext, hvalue⟩ := exists_numeral hv
  have hsigned : ∀ s : Sign, (x.signed s).text = s.text ++ x.text := Numeral.signed_text hsign
  obtain ⟨s, hplus, hs, hminus⟩ :
      ∃ s : Sign, s ≠ .plus ∧ s.text = minusText negative ∧ (s == .minus) = negative := by
    cases negative with
    | true => exact ⟨.minus, by decide, rfl, rfl⟩
    | false => exact ⟨.absent, by decide, rfl, rfl⟩
  refine ⟨x.signed s, hx, hplus, ⟨c, ?_, hmark⟩, ?_, hvalue s hminus⟩
  · rw [hsigned]
    exact List.mem_append_right _ hc
  · rw [hsigned, hs, htext]

/-- **A floating-point number is printed as a literal for it.** -/
theorem item_float {v : Binary64} (hv : v.isNaN = false) :
    Item (v.text .literal) (.scalar (.float v)) := by
  obtain ⟨x, hx, hplus, hmark, htext, hvalue⟩ := exists_real hv
  rw [← htext, ← hvalue]
  exact Item.float hx hplus hmark

/-- The second number of a complex one is written with a sign. -/
theorem exists_imaginary {v : Binary64} (hv : v.isNaN = false) :
    ∃ x : Numeral, x.WellFormed ∧ (x.text.head? = some '+' ∨ x.text.head? = some '-') ∧
      x.text = imaginaryText .literal v ∧ x.value = v := by
  obtain ⟨x, negative, hsign, hx, -, htext, hvalue⟩ := exists_numeral hv
  cases negative with
  | true =>
    refine ⟨x.signed .minus, hx, Or.inr ?_, ?_, hvalue .minus rfl⟩
    · rw [Numeral.signed_text hsign]
      rfl
    · rw [Numeral.signed_text hsign, imaginaryText, htext]
      rfl
  | false =>
    obtain ⟨c, t, ht, hc⟩ := Numeral.exists_head_of_absent hx hsign
    have hminus : c ≠ '-' := by
      rintro rfl
      exact absurd hc (by decide)
    refine ⟨x.signed .plus, hx, Or.inl ?_, ?_, hvalue .plus rfl⟩
    · rw [Numeral.signed_text hsign]
      rfl
    · rw [Numeral.signed_text hsign, imaginaryText, htext, show minusText false = [] from rfl,
        List.nil_append, ht]
      split
      next h => exact absurd (List.cons.inj h).1 hminus
      next => rfl

theorem item_complex {re im : Binary64} (hre : re.isNaN = false) (him : im.isNaN = false) :
    Item ('(' :: (re.text .literal ++ imaginaryText .literal im ++ ['j', ')']))
      (.complex re im) := by
  obtain ⟨x, hx, -, -, hxtext, rfl⟩ := exists_real hre
  obtain ⟨y, hy, hjoin, hytext, rfl⟩ := exists_imaginary him
  rw [← hxtext, ← hytext]
  simpa using Item.complex hx hy (hjoin.imp id Or.inl)

end Literals.Grammar
