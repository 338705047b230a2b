/-
# Numerals and their texts

`Numeral.read?` takes a text apart and `Numeral.text` puts it together; **a text is read exactly
when it is the text of a well-formed numeral, and then as that numeral** (`read?_eq_some_iff`).
The second half says which characters such a text is made of, and what it starts with, in the form
that the scanning rules need.
-/
import Literals.Proofs.Rule

namespace Literals.Number

open Reader

/-! ## 1. Signs and exponents -/

/-- The text of a sign and what follows it, taken apart again. -/
theorem Sign.split_text_append (x : Sign) {s : List Char}
    (h : x = .absent → ∀ c ∈ s.head?, isSign c = false) : Sign.split (x.text ++ s) = (x, s) := by
  cases x with
  | plus => rfl
  | minus => rfl
  | absent =>
    cases s with
    | nil => rfl
    | cons c t =>
      have hc : isSign c = false := h rfl c rfl
      simp only [isSign, Bool.or_eq_false_iff, beq_eq_false_iff_ne] at hc
      simp [Sign.text, Sign.split, hc.1, hc.2]

/-- Taking a sign off loses nothing, and leaves no sign where it finds none. -/
theorem Sign.split_eq {x : Sign} {s t : List Char} (h : Sign.split s = (x, t)) :
    s = x.text ++ t ∧ (x = .absent → ∀ c ∈ t.head?, isSign c = false) := by
  unfold Sign.split at h
  split at h
  next => cases h; exact ⟨rfl, nofun⟩
  next => cases h; exact ⟨rfl, nofun⟩
  next hplus hminus =>
    cases h
    refine ⟨rfl, fun _ c hc => ?_⟩
    cases s with
    | nil => simp at hc
    | cons d t =>
      obtain rfl : d = c := by simpa using hc
      simp only [isSign, Bool.or_eq_false_iff, beq_eq_false_iff_ne]
      exact ⟨fun h => hplus t (h ▸ rfl), fun h => hminus t (h ▸ rfl)⟩

theorem isSign_of_isDigit {c : Char} (h : c.isDigit = true) : isSign c = false := by
  simp only [isSign, Bool.or_eq_false_iff, beq_eq_false_iff_ne]
  exact ⟨fun hc => by rw [hc] at h; exact absurd h (by decide),
    fun hc => by rw [hc] at h; exact absurd h (by decide)⟩

namespace Numeral

/-- The exponent has its mark and digits after it. -/
def ProperExponent (e : Char × Sign × List Char) : Prop :=
  (e.1 = 'e' ∨ e.1 = 'E') ∧ e.2.2 ≠ [] ∧ ∀ c ∈ e.2.2, c.isDigit = true

theorem head_of_all_digits {ds : List Char} (h : ∀ c ∈ ds, c.isDigit = true) :
    ∀ c ∈ ds.head?, isSign c = false :=
  fun c hc => isSign_of_isDigit (h c (List.mem_of_mem_head? hc))

theorem readExponent?_exponentText {e : Option (Char × Sign × List Char)}
    (h : ∀ x ∈ e, ProperExponent x) : readExponent? (exponentText e) = some e := by
  cases e with
  | none => rfl
  | some x =>
    obtain ⟨mark, sign, ds⟩ := x
    obtain ⟨hmark, hne, hds⟩ := h _ rfl
    have hsplit := Sign.split_text_append sign (fun _ => head_of_all_digits hds)
    have hall : ds.all Char.isDigit = true := List.all_eq_true.mpr hds
    simp only [exponentText, readExponent?, hsplit]
    rw [if_pos ⟨hmark, hne, hall⟩]

theorem eq_exponentText {s : List Char} {e : Option (Char × Sign × List Char)}
    (h : readExponent? s = some e) : s = exponentText e ∧ ∀ x ∈ e, ProperExponent x := by
  cases s with
  | nil =>
    obtain rfl : none = e := Option.some.inj h
    exact ⟨rfl, nofun⟩
  | cons c t =>
    rcases hsplit : Sign.split t with ⟨sign, ds⟩
    simp only [readExponent?, hsplit] at h
    split at h
    next hc =>
      obtain rfl := Option.some.inj h
      refine ⟨by rw [(Sign.split_eq hsplit).1]; rfl, ?_⟩
      rintro x hx
      obtain rfl := Option.some.inj hx
      exact ⟨hc.1, hc.2.1, List.all_eq_true.mp hc.2.2⟩
    next => cases h

/-! ## 2. Reading a numeral -/

/-- What follows the digits before the point: the point and the fraction, and the exponent. -/
def afterWhole (fraction : Option (List Char)) (e : Option (Char × Sign × List Char)) :
    List Char :=
  fraction.elim [] ('.' :: ·) ++ exponentText e

theorem text_eq (x : Numeral) :
    x.text = x.sign.text ++ (x.whole ++ afterWhole x.fraction x.exponent) := by
  simp [text, afterWhole, List.append_assoc]

theorem head_exponentText {e : Option (Char × Sign × List Char)} (h : ∀ x ∈ e, ProperExponent x) :
    ∀ c ∈ (exponentText e).head?, c = 'e' ∨ c = 'E' := by
  cases e with
  | none => nofun
  | some x =>
    intro c hc
    obtain rfl : x.1 = c := by simpa [exponentText] using hc
    exact (h x rfl).1

theorem head_afterWhole {fraction : Option (List Char)} {e : Option (Char × Sign × List Char)}
    (h : ∀ x ∈ e, ProperExponent x) :
    ∀ c ∈ (afterWhole fraction e).head?, c = '.' ∨ c = 'e' ∨ c = 'E' := by
  cases fraction with
  | none => exact fun c hc => Or.inr (head_exponentText h c hc)
  | some f =>
    intro c hc
    obtain rfl : '.' = c := by simpa [afterWhole] using hc
    exact Or.inl rfl

theorem isDigit_eq_false_of_mark {c : Char} (h : c = '.' ∨ c = 'e' ∨ c = 'E') :
    c.isDigit = false := by
  rcases h with rfl | rfl | rfl <;> decide

/-- The point and the fraction are taken off whole. -/
theorem splitFraction_afterWhole {fraction : Option (List Char)}
    {e : Option (Char × Sign × List Char)} (hf : ∀ c ∈ fraction.getD [], c.isDigit = true)
    (he : ∀ x ∈ e, ProperExponent x) :
    splitFraction (afterWhole fraction e) = (fraction, exponentText e) := by
  have hhead : ∀ c ∈ (exponentText e).head?, c.isDigit = false :=
    fun c hc => isDigit_eq_false_of_mark (Or.inr (head_exponentText he c hc))
  cases fraction with
  | some f =>
    have hf' : ∀ c ∈ f, c.isDigit = true := hf
    change (some ((f ++ exponentText e).takeWhile Char.isDigit),
      (f ++ exponentText e).dropWhile Char.isDigit) = _
    rw [takeWhile_append_of_head hf' hhead, dropWhile_append_of_head hf' hhead]
  | none =>
    change splitFraction (exponentText e) = _
    cases he' : exponentText e with
    | nil => rfl
    | cons c t =>
      have hc : c = 'e' ∨ c = 'E' := head_exponentText he c (by rw [he']; rfl)
      rcases hc with rfl | rfl <;> rfl

theorem eq_afterWhole {s rest : List Char} {fraction : Option (List Char)}
    (h : splitFraction s = (fraction, rest)) :
    s = fraction.elim [] ('.' :: ·) ++ rest ∧ ∀ c ∈ fraction.getD [], c.isDigit = true := by
  unfold splitFraction at h
  split at h
  next t =>
    cases h
    refine ⟨?_, fun c hc => List.mem_takeWhile_imp hc⟩
    simp [List.takeWhile_append_dropWhile]
  next =>
    cases h
    exact ⟨rfl, nofun⟩

/-- **A well-formed numeral is read back from its text.** -/
theorem read?_text {x : Numeral} (h : x.WellFormed) : read? x.text = some x := by
  obtain ⟨hne, hds, he⟩ := h
  have hwhole : ∀ c ∈ x.whole, c.isDigit = true := fun c hc => hds c (List.mem_append_left _ hc)
  have hfrac : ∀ c ∈ x.fraction.getD [], c.isDigit = true :=
    fun c hc => hds c (List.mem_append_right _ hc)
  have hafter : ∀ c ∈ (afterWhole x.fraction x.exponent).head?, c.isDigit = false :=
    fun c hc => isDigit_eq_false_of_mark (head_afterWhole he c hc)
  have hsign : x.sign = .absent →
      ∀ c ∈ (x.whole ++ afterWhole x.fraction x.exponent).head?, isSign c = false := by
    intro _ c hc
    cases hw : x.whole with
    | cons d t =>
      obtain rfl : d = c := by simpa [hw] using hc
      exact isSign_of_isDigit (hwhole d (by simp [hw]))
    | nil =>
      rw [hw] at hc
      rcases head_afterWhole he c hc with rfl | rfl | rfl <;> rfl
  rw [text_eq, read?, Sign.split_text_append _ hsign]
  simp only [takeWhile_append_of_head hwhole hafter, dropWhile_append_of_head hwhole hafter,
    splitFraction_afterWhole hfrac he, readExponent?_exponentText he]
  exact if_neg hne

/-- What is read as a numeral is the text of that numeral, which is well-formed. -/
theorem eq_text_of_read? {s : List Char} {x : Numeral} (h : read? s = some x) :
    x.WellFormed ∧ s = x.text := by
  rcases hsplit : Sign.split s with ⟨sign, t⟩
  rcases hfrac : splitFraction (t.dropWhile Char.isDigit) with ⟨fraction, rest⟩
  simp only [read?, hsplit, hfrac] at h
  split at h
  next => cases h
  next hne =>
    obtain ⟨e, he, rfl⟩ := Option.map_eq_some_iff.mp h
    obtain ⟨hfracText, hfracDigits⟩ := eq_afterWhole hfrac
    obtain ⟨heText, heProper⟩ := eq_exponentText he
    refine ⟨⟨hne, fun c hc => ?_, heProper⟩, ?_⟩
    · rcases List.mem_append.mp hc with hc | hc
      · exact List.mem_takeWhile_imp hc
      · exact hfracDigits c hc
    · rw [text_eq, (Sign.split_eq hsplit).1, afterWhole, ← heText, ← hfracText,
        List.takeWhile_append_dropWhile]

/-- **Exactly the texts of well-formed numerals are read.** -/
theorem read?_eq_some_iff {s : List Char} {x : Numeral} :
    read? s = some x ↔ x.WellFormed ∧ s = x.text :=
  ⟨eq_text_of_read?, fun ⟨h, hs⟩ => hs ▸ read?_text h⟩

/-! ## 3. The characters of a numeral -/

/-- The digits before the exponent, with the point. -/
def mantissaText (x : Numeral) : List Char :=
  x.whole ++ x.fraction.elim [] ('.' :: ·)

theorem text_eq_mantissaText (x : Numeral) :
    x.text = x.sign.text ++ (x.mantissaText ++ exponentText x.exponent) := by
  simp [text, mantissaText, List.append_assoc]

theorem isMantissaChar_of_isDigit {c : Char} (h : c.isDigit = true) : isMantissaChar c = true := by
  simp [isMantissaChar, h]

theorem isMantissaChar_of_mem {x : Numeral} (h : x.WellFormed) :
    ∀ c ∈ x.mantissaText, isMantissaChar c = true := by
  intro c hc
  rcases List.mem_append.mp hc with hc | hc
  · exact isMantissaChar_of_isDigit (h.2.1 c (List.mem_append_left _ hc))
  · cases hf : x.fraction with
    | none => simp [hf] at hc
    | some f =>
      have hc : c = '.' ∨ c ∈ f := by simpa [hf] using hc
      rcases hc with rfl | hc
      · rfl
      · refine isMantissaChar_of_isDigit (h.2.1 c (List.mem_append_right _ ?_))
        simpa [fractionDigits, hf] using hc

theorem mantissaText_ne_nil {x : Numeral} (h : x.WellFormed) : x.mantissaText ≠ [] := by
  intro hnil
  obtain ⟨hwhole, hfrac⟩ := List.append_eq_nil_iff.mp hnil
  refine h.1 ?_
  cases hf : x.fraction with
  | none => simp [fractionDigits, hwhole, hf]
  | some f => simp [hf] at hfrac

theorem isSign_of_mem_signText {s : Sign} {c : Char} (h : c ∈ s.text) : isSign c = true := by
  cases s <;> simp only [Sign.text, List.mem_singleton, List.not_mem_nil] at h <;> subst h <;> rfl

theorem isFloatChar_of_mem_exponentText {e : Option (Char × Sign × List Char)}
    (h : ∀ x ∈ e, ProperExponent x) : ∀ c ∈ exponentText e, isFloatChar c = true := by
  cases e with
  | none => nofun
  | some x =>
    obtain ⟨hmark, -, hds⟩ := h x rfl
    intro c hc
    simp only [exponentText, List.mem_cons, List.mem_append] at hc
    rcases hc with rfl | hc | hc
    · rcases hmark with hm | hm <;> simp [hm, isFloatChar, isExponentMark]
    · simp [isFloatChar, isSign_of_mem_signText hc]
    · simp [isFloatChar, isMantissaChar_of_isDigit (hds c hc)]

theorem isFloatChar_of_mem_text {x : Numeral} (h : x.WellFormed) :
    ∀ c ∈ x.text, isFloatChar c = true := by
  intro c hc
  rw [text_eq_mantissaText] at hc
  simp only [List.mem_append] at hc
  rcases hc with hc | hc | hc
  · simp [isFloatChar, isSign_of_mem_signText hc]
  · simp [isFloatChar, isMantissaChar_of_mem h c hc]
  · exact isFloatChar_of_mem_exponentText h.2.2 c hc

theorem isExponentMark_eq_false {c : Char} (h : isMantissaChar c = true ∨ isSign c = true) :
    isExponentMark c = false := by
  rw [isExponentMark, Bool.or_eq_false_iff, beq_eq_false_iff_ne, beq_eq_false_iff_ne]
  constructor <;> rintro rfl <;> revert h <;> decide

theorem isSign_eq_false {c : Char} (h : isMantissaChar c = true) : isSign c = false := by
  rw [isSign, Bool.or_eq_false_iff, beq_eq_false_iff_ne, beq_eq_false_iff_ne]
  constructor <;> rintro rfl <;> revert h <;> decide

theorem isMantissaChar_eq_false {c : Char} (h : isExponentMark c = true) :
    isMantissaChar c = false := by
  rw [isExponentMark, Bool.or_eq_true, beq_iff_eq, beq_iff_eq] at h
  rcases h with rfl | rfl <;> decide

/-- **An exponent shows in the text**: there is an exponent mark exactly where there is an
exponent. -/
theorem exists_mark_iff {x : Numeral} (h : x.WellFormed) :
    (∃ c ∈ x.text, isExponentMark c = true) ↔ x.exponent.isSome := by
  rw [text_eq_mantissaText]
  cases he : x.exponent with
  | some e =>
    refine iff_of_true ⟨e.1, by simp [exponentText], ?_⟩ rfl
    rcases (h.2.2 e he).1 with hm | hm <;> rw [hm] <;> rfl
  | none =>
    refine iff_of_false ?_ nofun
    rintro ⟨c, hc, hm⟩
    simp only [exponentText, List.append_nil, List.mem_append] at hc
    have hfalse : isExponentMark c = false := by
      rcases hc with hc | hc
      · exact isExponentMark_eq_false (Or.inr (isSign_of_mem_signText hc))
      · exact isExponentMark_eq_false (Or.inl (isMantissaChar_of_mem h c hc))
    rw [hm] at hfalse
    cases hfalse

/-- A numeral without a sign starts with a digit or a point. -/
theorem exists_head_of_absent {x : Numeral} (h : x.WellFormed) (hs : x.sign = .absent) :
    ∃ c t, x.text = c :: t ∧ isMantissaChar c = true := by
  obtain ⟨c, t, hm⟩ := List.exists_cons_of_ne_nil (mantissaText_ne_nil h)
  refine ⟨c, t ++ exponentText x.exponent, ?_, ?_⟩
  · rw [text_eq_mantissaText, hs, hm]
    rfl
  · exact isMantissaChar_of_mem h c (by rw [hm]; exact List.mem_cons_self)

/-- A numeral starts with a sign, a digit or a point. -/
theorem exists_head {x : Numeral} (h : x.WellFormed) :
    ∃ c t, x.text = c :: t ∧ (isSign c = true ∨ isMantissaChar c = true) := by
  cases hs : x.sign with
  | plus => exact ⟨'+', _, by rw [text_eq_mantissaText, hs]; rfl, Or.inl rfl⟩
  | minus => exact ⟨'-', _, by rw [text_eq_mantissaText, hs]; rfl, Or.inl rfl⟩
  | absent =>
    obtain ⟨c, t, ht, hc⟩ := exists_head_of_absent h hs
    exact ⟨c, t, ht, Or.inr hc⟩

/-- The text goes on with no character that would continue the numeral. -/
def Ends (x : Numeral) (s : List Char) : Prop :=
  ∀ c ∈ s.head?, if x.exponent.isSome then c.isDigit = false
    else isMantissaChar c = false ∧ isExponentMark c = false

/-- A numeral ends before every character that no number contains. -/
theorem ends_of_head {x : Numeral} {s : List Char} (h : ∀ c ∈ s.head?, isFloatChar c = false) :
    x.Ends s := by
  intro c hc
  have hf := h c hc
  simp only [isFloatChar, isMantissaChar, Bool.or_eq_false_iff] at hf
  split
  · exact hf.1.1.1
  · exact ⟨by simp [isMantissaChar, hf.1.1], hf.2⟩

end Numeral

end Literals.Number
