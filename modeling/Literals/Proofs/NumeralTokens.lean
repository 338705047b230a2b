/-
# Numerals as tokens

A well-formed numeral is one token where nothing follows that would go on with it, and with a `j`
behind it is one too.  **Which of the four patterns it is measured by is told by its parts**: a
point, an exponent, or neither (`numberStep?_text`).
-/
import Literals.Highlight.Lexer
import Literals.Proofs.Grammar
import Literals.Proofs.NumberPatterns

namespace Literals.Highlight

open Number Numeral Reader Text

/-! ## 1. Parts of a numeral -/

variable {x : Numeral} {t : List Char}

theorem isDecimalDigit_of_isDigit {c : Char} (h : c.isDigit = true) : isDecimalDigit c = true := by
  simp only [Char.isDigit, Bool.and_eq_true, decide_eq_true_eq, ge_iff_le,
    UInt32.le_iff_toNat_le] at h
  exact (RangeTable.contains_iff _ _).mpr ⟨(0x30, 0x39), List.mem_cons_self, h⟩

theorem countWhile_append {f : Char → Bool} {s : List Char} (hs : ∀ c ∈ s, f c = true)
    (ht : ∀ c ∈ t.head?, f c = false) : countWhile f (s ++ t) = s.length := by
  rw [countWhile, takeWhile_append_of_head hs ht]

theorem mem_signs_of_mem_text (s : Sign) : ∀ c ∈ s.text, c ∈ ['+', '-'] := by
  cases s <;> simp [Sign.text]

/-- A sign is measured where no digit or point could be taken for one. -/
theorem signLength_append {signs : List Char} {s : Sign} (hs : ∀ c ∈ s.text, c ∈ signs)
    (hsigns : ∀ c ∈ signs, isMantissa c = false) (ht : ∀ c ∈ t.head?, isMantissa c = true) :
    signLength signs (s.text ++ t) = s.text.length := by
  cases s with
  | absent =>
    cases t with
    | nil => rfl
    | cons c t =>
      have hc : c ∉ signs := fun hc => by
        have hfalse := hsigns c hc
        rw [ht c rfl] at hfalse
        cases hfalse
      simpa [Sign.text, signLength] using hc
  | plus => simpa [Sign.text, signLength] using hs
  | minus => simpa [Sign.text, signLength] using hs

/-- The text does not go on as a numeral. -/
def Behind (t : List Char) : Prop :=
  ∀ c ∈ t.head?, isMantissa c = false ∧ isMark c = false

theorem Behind.not_digit (h : Behind t) : ∀ c ∈ t.head?, isDecimalDigit c = false :=
  fun c hc => (Bool.or_eq_false_iff.mp (h c hc).1).1

theorem exponentLength?_append {e : Option (Char × Sign × List Char)}
    (he : ∀ p ∈ e, ProperExponent p) (ht : Behind t) :
    exponentLength? (exponentText e ++ t) = e.map fun _ => (exponentText e).length := by
  cases e with
  | none =>
    cases t with
    | nil => rfl
    | cons c t =>
      have hmark : ¬ (c = 'e' ∨ c = 'E') := by simpa [isMark] using (ht c rfl).2
      exact if_neg hmark
  | some p =>
    obtain ⟨mark, sign, ds⟩ := p
    obtain ⟨hmark, hne, hds⟩ := he _ rfl
    have hdigits : ∀ c ∈ ds, isDecimalDigit c = true := fun c hc =>
      isDecimalDigit_of_isDigit (hds c hc)
    obtain ⟨d, ds, rfl⟩ := List.exists_cons_of_ne_nil hne
    have hsign : signLength ['+', '-'] (sign.text ++ (d :: ds ++ t)) = sign.text.length := by
      refine signLength_append (mem_signs_of_mem_text sign) (forall_mem_of_all (by decide)) ?_
      intro c hc
      obtain rfl : d = c := by simpa using hc
      exact isMantissa_of_digit d (hdigits d List.mem_cons_self)
    simp only [exponentText, List.cons_append, List.append_assoc, exponentLength?, Option.map_some]
    rw [if_pos hmark]
    rw [List.cons_append] at hsign
    rw [hsign, List.drop_left, ← List.cons_append, countWhile_append hdigits ht.not_digit]
    simp only [List.length_cons, List.length_append]
    rw [if_neg (Nat.succ_ne_zero _)]
    congr 1
    omega

theorem isMantissa_of_mem (hx : x.WellFormed) : ∀ c ∈ x.mantissaText, isMantissa c = true := by
  intro c hc
  rcases Bool.or_eq_true_iff.mp (isMantissaChar_of_mem hx c hc) with hdigit | hpoint
  · exact isMantissa_of_digit c (isDecimalDigit_of_isDigit hdigit)
  · exact isMantissa_of_point c hpoint

/-- The digits before an exponent are measured whole, unless a point is asked for and missing. -/
theorem mantissaLength?_append (hx : x.WellFormed) (needsPoint : Bool)
    (ht : ∀ c ∈ t.head?, isMantissa c = false) : mantissaLength? needsPoint (x.mantissaText ++ t) =
      if needsPoint && x.fraction.isNone then none else some x.mantissaText.length := by
  obtain ⟨hne, hds, -⟩ := hx
  have hwhole : ∀ c ∈ x.whole, isDecimalDigit c = true := fun c hc =>
    isDecimalDigit_of_isDigit (hds c (List.mem_append_left _ hc))
  have hstop : ∀ c ∈ t.head?, isDecimalDigit c = false := fun c hc =>
    (Bool.or_eq_false_iff.mp (ht c hc)).1
  cases hf : x.fraction with
  | none =>
    have htext : x.mantissaText = x.whole := by simp [mantissaText, hf]
    have hpos : ¬ x.whole.length = 0 := fun h => hne (by
      simp [List.eq_nil_of_length_eq_zero h, fractionDigits, hf])
    rw [htext, mantissaLength?, countWhile_append hwhole hstop, List.drop_left]
    split
    next rest => exact absurd (ht '.' rfl) (by decide)
    next => cases needsPoint <;> simp [hpos]
  | some f =>
    have htext : x.mantissaText ++ t = x.whole ++ ('.' :: (f ++ t)) := by simp [mantissaText, hf]
    have hfraction : ∀ c ∈ f, isDecimalDigit c = true := fun c hc =>
      isDecimalDigit_of_isDigit
        (hds c (List.mem_append_right _ (by simpa [fractionDigits, hf] using hc)))
    have hpos : ¬ x.whole.length + f.length = 0 := fun h => hne (by
      rw [← List.length_append] at h
      simpa [fractionDigits, hf] using List.eq_nil_of_length_eq_zero h)
    have hpoint : ∀ c ∈ ('.' :: (f ++ t)).head?, isDecimalDigit c = false := by
      rintro c ⟨⟩
      decide
    rw [htext, mantissaLength?, countWhile_append hwhole hpoint, List.drop_left]
    change (if x.whole.length + countWhile isDecimalDigit (f ++ t) = 0 then none
      else some (x.whole.length + 1 + countWhile isDecimalDigit (f ++ t))) = _
    rw [countWhile_append hfraction hstop, if_neg hpos]
    simp [mantissaText, hf]
    omega

theorem head_mantissaText (hx : x.WellFormed) (t : List Char) :
    ∀ c ∈ (x.mantissaText ++ t).head?, isMantissa c = true := by
  obtain ⟨d, ds, hm⟩ := List.exists_cons_of_ne_nil (mantissaText_ne_nil hx)
  intro c hc
  rw [hm] at hc
  obtain rfl : d = c := by simpa using hc
  exact isMantissa_of_mem hx d (by rw [hm]; exact List.mem_cons_self)

/-- What follows the digits before an exponent is none of them. -/
theorem not_mantissa_exponentText {e : Option (Char × Sign × List Char)}
    (he : ∀ p ∈ e, ProperExponent p) (ht : Behind t) :
    ∀ c ∈ (exponentText e ++ t).head?, isMantissa c = false := by
  cases e with
  | none => exact fun c hc => (ht c hc).1
  | some p =>
    rintro c ⟨⟩
    rcases (he p rfl).1 with hmark | hmark <;> rw [hmark] <;> decide

theorem length_text (x : Numeral) : x.text.length =
    x.sign.text.length + x.mantissaText.length + (exponentText x.exponent).length := by
  rw [text_eq_mantissaText, List.length_append, List.length_append, Nat.add_assoc]

theorem getD_exponent (e : Option (Char × Sign × List Char)) :
    (e.map fun _ => (exponentText e).length).getD 0 = (exponentText e).length := by
  cases e <;> rfl

/-! ## 2. The four patterns -/

section Patterns

variable (hx : x.WellFormed) (ht : Behind t)

include hx ht

/-- The sign, the digits before the exponent and the exponent, one after the other. -/
theorem measured_parts (signs : List Char) (hs : ∀ c ∈ x.sign.text, c ∈ signs)
    (hsigns : ∀ c ∈ signs, isMantissa c = false) (needsPoint : Bool) :
    signLength signs (x.text ++ t) = x.sign.text.length ∧
      mantissaLength? needsPoint ((x.text ++ t).drop x.sign.text.length) =
        (if needsPoint && x.fraction.isNone then none else some x.mantissaText.length) ∧
      exponentLength? ((x.text ++ t).drop (x.sign.text.length + x.mantissaText.length)) =
        x.exponent.map fun _ => (exponentText x.exponent).length := by
  rw [text_eq_mantissaText, List.append_assoc, List.append_assoc]
  refine ⟨signLength_append hs hsigns (head_mantissaText hx _), ?_, ?_⟩
  · rw [List.drop_left, mantissaLength?_append hx needsPoint (not_mantissa_exponentText hx.2.2 ht)]
  · rw [List.drop_length_add_append, List.drop_left, exponentLength?_append hx.2.2 ht]

/-- A numeral is imaginary exactly where the letter follows. -/
theorem imaginaryLength?_text : imaginaryLength? (x.text ++ t) =
    if t.head? = some 'j' then some (x.text.length + 1) else none := by
  obtain ⟨hsign, hmantissa, hexponent⟩ := measured_parts hx ht ['+', '-']
    (mem_signs_of_mem_text x.sign) (forall_mem_of_all (by decide)) false
  rw [imaginaryLength?, hsign, hmantissa, Bool.false_and, if_neg Bool.false_ne_true]
  simp only [Option.bind_eq_bind, Option.bind_some, hexponent, getD_exponent, ← length_text,
    List.drop_left]

/-- Without a point the digits are measured alone. -/
theorem countWhile_text (hf : x.fraction = none) : 0 < x.mantissaText.length ∧
    countWhile isDecimalDigit ((x.text ++ t).drop x.sign.text.length) = x.mantissaText.length := by
  have htext : x.mantissaText = x.whole := by simp [mantissaText, hf]
  have hwhole : ∀ c ∈ x.mantissaText, isDecimalDigit c = true := fun c hc =>
    isDecimalDigit_of_isDigit (hx.2.1 c (List.mem_append_left _ (htext ▸ hc)))
  have hstop : ∀ c ∈ (exponentText x.exponent ++ t).head?, isDecimalDigit c = false :=
    fun c hc => (Bool.or_eq_false_iff.mp (not_mantissa_exponentText hx.2.2 ht c hc)).1
  refine ⟨List.length_pos_iff.mpr (mantissaText_ne_nil hx), ?_⟩
  rw [text_eq_mantissaText, List.append_assoc, List.drop_left, List.append_assoc,
    countWhile_append hwhole hstop]

variable (hplus : x.sign ≠ .plus)

include hplus

/-- The parts again, of a numeral without a plus. -/
theorem measured_parts_minus (needsPoint : Bool) :
    signLength ['-'] (x.text ++ t) = x.sign.text.length ∧
      mantissaLength? needsPoint ((x.text ++ t).drop x.sign.text.length) =
        (if needsPoint && x.fraction.isNone then none else some x.mantissaText.length) ∧
      exponentLength? ((x.text ++ t).drop (x.sign.text.length + x.mantissaText.length)) =
        x.exponent.map fun _ => (exponentText x.exponent).length := by
  refine measured_parts hx ht ['-'] ?_ (forall_mem_of_all (by decide)) needsPoint
  cases hs : x.sign with
  | absent => exact List.forall_mem_nil _
  | plus => exact absurd hs hplus
  | minus => exact List.forall_mem_singleton.mpr List.mem_cons_self

theorem pointedLength?_text : pointedLength? (x.text ++ t) =
    if x.fraction.isNone then none else some x.text.length := by
  obtain ⟨hsign, hmantissa, hexponent⟩ := measured_parts_minus hx ht hplus true
  rw [pointedLength?, hsign, hmantissa, Bool.true_and]
  cases x.fraction.isNone with
  | true => rfl
  | false =>
    simp only [Bool.false_eq_true, if_false, Option.bind_eq_bind, Option.bind_some, hexponent,
      getD_exponent, ← length_text]

variable (hf : x.fraction = none)

include hf

theorem scaledLength?_text : scaledLength? (x.text ++ t) =
    if x.exponent.isNone then none else some x.text.length := by
  obtain ⟨hsign, -, hexponent⟩ := measured_parts_minus hx ht hplus false
  obtain ⟨hpos, hcount⟩ := countWhile_text hx ht hf
  rw [scaledLength?, hsign, hcount, if_neg (Nat.ne_of_gt hpos), hexponent, length_text]
  cases x.exponent <;> rfl

theorem integerLength?_text (he : x.exponent = none) :
    integerLength? (x.text ++ t) = some x.text.length := by
  obtain ⟨hsign, -, -⟩ := measured_parts_minus hx ht hplus false
  obtain ⟨hpos, hcount⟩ := countWhile_text hx ht hf
  rw [integerLength?, hsign, hcount, if_neg (Nat.ne_of_gt hpos), length_text, he]
  rfl

end Patterns

/-! ## 3. Tokens -/

/-- The class of a number, by its parts. -/
def numberClass (x : Numeral) : TokenClass :=
  if x.fraction.isNone ∧ x.exponent.isNone then .integer else .float

/-- A numeral is one token where neither a number nor the letter of an imaginary one goes on. -/
theorem numberStep?_text (hx : x.WellFormed) (hplus : x.sign ≠ .plus) (ht : Behind t)
    (hunit : t.head? ≠ some 'j') :
    numberStep? (x.text ++ t) = some ⟨numberClass x, x.text.length - 1, .root⟩ := by
  rw [numberStep?, imaginaryLength?_text hx ht, if_neg hunit, pointedLength?_text hx ht hplus,
    numberClass]
  cases hf : x.fraction with
  | some f => rfl
  | none =>
    rw [scaledLength?_text hx ht hplus hf]
    cases he : x.exponent with
    | some e => rfl
    | none =>
      rw [integerLength?_text hx ht hplus hf he]
      rfl

/-- With the letter behind it a numeral is one token too, under every sign. -/
theorem numberStep?_imaginary (hx : x.WellFormed) (t : List Char) :
    numberStep? (x.text ++ 'j' :: t) = some ⟨.number, x.text.length, .root⟩ := by
  have hbehind : Behind ('j' :: t) := by
    rintro c ⟨⟩
    decide
  rw [numberStep?, imaginaryLength?_text hx hbehind]
  rfl

end Literals.Highlight
