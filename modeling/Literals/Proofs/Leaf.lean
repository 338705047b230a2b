/-
# What the rules for leaves read

One statement for each rule: **it succeeds exactly on the texts of its production, taken as long
as they go**.  A number is scanned before it is judged, so the statements about numbers also say
with which character the scan must have stopped; strings and names stop by themselves.
-/
import Literals.Proofs.Grammar

namespace Literals.Reader

open Number Grammar Rule

variable {p q : Point} {n : Node}

/-! ## 1. Integers -/

/-- What is left of an integer's text when its sign is taken off. -/
theorem split_minusText (minus : Bool) {ds : List Char} (h : Digits ds) :
    Sign.split (minusText minus ++ ds) = (if minus then .minus else .absent, ds) := by
  cases minus with
  | true => rfl
  | false => exact Sign.split_text_append .absent fun _ => Numeral.head_of_all_digits h.2

/-- The text of an integer is read as the scalar that it denotes. -/
theorem integer?_append (minus : Bool) {ds : List Char} (h : Digits ds) :
    integer? (minusText minus ++ ds) = some (integerScalar minus ds) := by
  have hall : ds.all Char.isDigit = true := List.all_eq_true.mpr h.2
  have hcond : ¬ ((if minus then Sign.minus else .absent) = .plus ∨ ds = [] ∨
      (!ds.all Char.isDigit) = true) := by
    cases minus <;> simp [h.1, hall]
  simp only [integer?, split_minusText minus h]
  rw [if_neg hcond, integerScalar]
  by_cases hlen : longestInteger < ds.length
  · rw [if_pos hlen, if_neg (Nat.not_le_of_gt hlen)]
    cases minus <;> rfl
  · rw [if_neg hlen, if_pos (Nat.le_of_not_lt hlen)]
    cases minus <;> rfl

/-- **Only the texts of integers are read.** -/
theorem integer?_eq_some_iff {s : List Char} {x : Scalar} :
    integer? s = some x ↔
      ∃ minus ds, s = minusText minus ++ ds ∧ Digits ds ∧ x = integerScalar minus ds := by
  constructor
  · intro h
    rcases hsplit : Sign.split s with ⟨sign, ds⟩
    have hs : s = sign.text ++ ds := (Sign.split_eq hsplit).1
    have hcond : sign ≠ .plus ∧ Digits ds := by
      simp only [integer?, hsplit] at h
      split at h
      next => cases h
      next hc =>
        simp only [not_or, Bool.not_eq_true', Bool.not_eq_false, List.all_eq_true] at hc
        exact ⟨hc.1, hc.2.1, hc.2.2⟩
    obtain ⟨hsign, hds⟩ := hcond
    have htext : s = minusText (sign == .minus) ++ ds := by
      cases sign with
      | plus => exact absurd rfl hsign
      | minus => exact hs
      | absent => exact hs
    refine ⟨sign == .minus, ds, htext, hds, ?_⟩
    rw [htext, integer?_append _ hds] at h
    exact (Option.some.inj h).symm
  · rintro ⟨minus, ds, rfl, hds, rfl⟩
    exact integer?_append minus hds

theorem isIntegerChar_of_mem {minus : Bool} {ds : List Char} (h : Digits ds) :
    ∀ c ∈ minusText minus ++ ds, isIntegerChar c = true := by
  intro c hc
  rcases List.mem_append.mp hc with hc | hc
  · cases minus
    · simp [minusText] at hc
    · obtain rfl : c = '-' := by simpa [minusText] using hc
      rfl
  · simp [isIntegerChar, h.2 c hc]

theorem integer_eq_ok :
    integer p = .ok n q ↔ ∃ minus ds, Digits ds ∧ Spans p (minusText minus ++ ds) q ∧
      (∀ c ∈ q.rest.head?, isIntegerChar c = false) ∧ n = .scalar (integerScalar minus ds) := by
  rw [integer, bind_of_ok takeWhile_eq]
  constructor
  · intro h
    split at h
    next => exact absurd h fail_ne_ok
    next =>
      cases hx : integer? (p.span isIntegerChar).1 with
      | none => rw [hx] at h; exact absurd h fail_ne_ok
      | some x =>
        rw [hx] at h
        obtain ⟨rfl, rfl⟩ := pure_eq_ok.mp h
        obtain ⟨minus, ds, hs, hds, rfl⟩ := integer?_eq_some_iff.mp hx
        exact ⟨minus, ds, hds, hs ▸ spans_span p isIntegerChar, head_span p isIntegerChar, rfl⟩
  · rintro ⟨minus, ds, hds, hspan, hq, rfl⟩
    have hne : minusText minus ++ ds ≠ [] := by simp [hds.1]
    have hx := integer?_eq_some_iff.mpr ⟨minus, ds, rfl, hds, rfl⟩
    rw [span_eq hspan (isIntegerChar_of_mem hds) hq, if_neg hne, hx]
    exact pure_eq_ok.mpr ⟨rfl, rfl⟩

/-! ## 2. Floating-point numbers -/

theorem looksFloat_iff {s : List Char} :
    looksFloat s = true ↔ ∃ c ∈ s, c = '.' ∨ c = 'e' ∨ c = 'E' := by
  simp [looksFloat, isExponentMark, List.any_eq_true]

theorem float_eq_ok :
    float p = .ok n q ↔ ∃ x : Numeral, x.WellFormed ∧ x.sign ≠ .plus ∧
      (∃ c ∈ x.text, c = '.' ∨ c = 'e' ∨ c = 'E') ∧ Spans p x.text q ∧
      (∀ c ∈ q.rest.head?, isFloatChar c = false) ∧ n = .scalar (.float x.value) := by
  rw [float, bind_of_ok takeWhile_eq]
  constructor
  · intro h
    split at h
    next => exact absurd h fail_ne_ok
    next =>
      split at h
      next => exact absurd h fail_ne_ok
      next hlooks =>
        cases hx : Numeral.read? (p.span isFloatChar).1 with
        | none => rw [hx] at h; exact absurd h fail_ne_ok
        | some x =>
          simp only [hx] at h
          obtain ⟨hwf, hs⟩ := Numeral.eq_text_of_read? hx
          split at h
          next => exact absurd h fail_ne_ok
          next hsign =>
            obtain ⟨rfl, rfl⟩ := pure_eq_ok.mp h
            refine ⟨x, hwf, hsign, ?_, hs ▸ spans_span p isFloatChar, head_span p isFloatChar, rfl⟩
            rw [← hs]
            exact looksFloat_iff.mp (by simpa using hlooks)
  · rintro ⟨x, hwf, hsign, hmark, hspan, hq, rfl⟩
    obtain ⟨c, t, htext, -⟩ := Numeral.exists_head hwf
    have hne : x.text ≠ [] := by simp [htext]
    have hlooks : ¬ (!looksFloat x.text) = true := by simp [looksFloat_iff.mpr hmark]
    rw [span_eq hspan (Numeral.isFloatChar_of_mem_text hwf) hq, if_neg hne, if_neg hlooks,
      Numeral.read?_text hwf]
    simp only [if_neg hsign]
    exact pure_eq_ok.mpr ⟨rfl, rfl⟩

/-! ## 3. Parts of complex numbers -/

/-- A sign is read where the text starts with it, or with no sign at all. -/
theorem oneOf_sign {s : Sign} (h : Spans p s.text q)
    (hq : s = .absent → ∀ c ∈ q.rest.head?, isSign c = false) :
    (oneOf isSign : Rule Id (List Char)) p = .ok s.text q := by
  cases s with
  | plus => exact oneOf_of_head h rfl
  | minus => exact oneOf_of_head h rfl
  | absent =>
    obtain rfl := h.eq_of_nil
    exact oneOf_of_not_head (hq rfl)

/-- **The scan of a part stops where the numeral ends.** -/
theorem partText_of_spans {x : Numeral} (hwf : x.WellFormed) (h : Spans p x.text q)
    (hq : x.Ends q.rest) : partText p = .ok x.text q := by
  rw [Numeral.text_eq_mantissaText] at h ⊢
  obtain ⟨a, hsign, h⟩ := h.split
  obtain ⟨b, hmant, hexp⟩ := h.split
  have hchars := Numeral.isMantissaChar_of_mem hwf
  have ha : ∀ c ∈ a.rest.head?, isSign c = false := fun c hc =>
    Numeral.isSign_eq_false
      (hchars c (hmant.mem_of_mem_head? (Numeral.mantissaText_ne_nil hwf) hc))
  rw [partText, bind_of_ok (oneOf_sign hsign fun _ => ha), bind_of_ok takeWhile_eq]
  cases he : x.exponent with
  | none =>
    rw [he] at hexp
    obtain rfl := hexp.eq_of_nil
    have hb : ∀ c ∈ b.rest.head?, isMantissaChar c = false ∧ isExponentMark c = false :=
      fun c hc => by simpa [he] using hq c hc
    rw [span_eq hmant hchars fun c hc => (hb c hc).1,
      bind_of_ok (oneOf_of_not_head fun c hc => (hb c hc).2), if_pos rfl]
    exact pure_eq_ok.mpr ⟨by simp [Numeral.exponentText], rfl⟩
  | some e =>
    obtain ⟨mark, sign, ds⟩ := e
    obtain ⟨hmark, hne, hds⟩ := hwf.2.2 _ he
    have hmark : isExponentMark mark = true := by simpa [isExponentMark] using hmark
    rw [he] at hexp
    obtain ⟨c, hc, hexp⟩ := hexp.uncons
    obtain ⟨d, hd, hexp⟩ := hexp.split
    have hb : ∀ c ∈ b.rest.head?, isMantissaChar c = false := by
      intro c' hc'
      obtain rfl : mark = c' := by simpa [hc.head] using hc'
      exact Numeral.isMantissaChar_eq_false hmark
    have hend : ∀ c ∈ q.rest.head?, c.isDigit = false := fun c hc => by simpa [he] using hq c hc
    have hdsign : ∀ c ∈ d.rest.head?, isSign c = false := fun c hc =>
      isSign_of_isDigit (hds c (hexp.mem_of_mem_head? hne hc))
    rw [span_eq hmant hchars hb, bind_of_ok (oneOf_of_head hc hmark), if_neg (by simp),
      bind_of_ok (oneOf_sign hd fun _ => hdsign), bind_of_ok takeWhile_eq,
      span_eq hexp hds hend]
    exact pure_eq_ok.mpr ⟨by simp [Numeral.exponentText], rfl⟩

/-- A scanned part, and what stopped the scan: where there was no exponent mark, neither a mark
nor a character of a mantissa comes next, and else no digit. -/
theorem spans_of_partText {s : List Char} (h : partText p = .ok s q) :
    Spans p s q ∧ ∀ c ∈ q.rest.head?,
      if s.any isExponentMark then c.isDigit = false
      else isMantissaChar c = false ∧ isExponentMark c = false := by
  rw [partText] at h
  obtain ⟨sign, a, ha, h⟩ := bind_eq_ok.mp h
  rw [bind_of_ok takeWhile_eq] at h
  obtain ⟨mark, c, hc, h⟩ := bind_eq_ok.mp h
  obtain ⟨hsign, hsignChars, -⟩ := oneOf_eq_ok ha
  obtain ⟨hmark, hmarkChars, hmarkNone⟩ := oneOf_eq_ok hc
  have hmant := spans_span a isMantissaChar
  split at h
  next hnil =>
    obtain ⟨rfl, rfl⟩ := pure_eq_ok.mp h
    subst hnil
    obtain hend := hmark.eq_of_nil
    refine ⟨hend ▸ hsign.append hmant, fun d hd => ?_⟩
    have hnone : (sign ++ (a.span isMantissaChar).1).any isExponentMark = false := by
      rw [List.any_eq_false]
      intro e he
      rcases List.mem_append.mp he with he | he
      · simp [Numeral.isExponentMark_eq_false (Or.inr (hsignChars e he))]
      · simp [Numeral.isExponentMark_eq_false (Or.inl (List.mem_takeWhile_imp he))]
    rw [hnone, if_neg nofun]
    exact ⟨head_span a isMantissaChar d (hend ▸ hd), hmarkNone rfl d hd⟩
  next hne =>
    obtain ⟨sign', d, hd, h⟩ := bind_eq_ok.mp h
    rw [bind_of_ok takeWhile_eq] at h
    obtain ⟨rfl, rfl⟩ := pure_eq_ok.mp h
    obtain ⟨hsign', -, -⟩ := oneOf_eq_ok hd
    refine ⟨(((hsign.append hmant).append hmark).append hsign').append (spans_span d Char.isDigit),
      fun e he => ?_⟩
    obtain ⟨m, t, rfl⟩ := List.exists_cons_of_ne_nil hne
    have hsome : (sign ++ (a.span isMantissaChar).1 ++ (m :: t) ++ sign' ++
        (d.span Char.isDigit).1).any isExponentMark = true := by
      simp [hmarkChars m List.mem_cons_self]
    rw [hsome, if_pos rfl]
    exact head_span d Char.isDigit e he

/-- **A part is a numeral, taken as long as it goes.** -/
theorem part_eq_ok {v : Binary64} :
    part p = .ok v q ↔
      ∃ x : Numeral, x.WellFormed ∧ Spans p x.text q ∧ x.Ends q.rest ∧ v = x.value := by
  constructor
  · intro h
    obtain ⟨s, m, hs, h⟩ := bind_eq_ok.mp h
    cases hx : Numeral.read? s with
    | none => simp only [hx] at h; exact absurd h fail_ne_ok
    | some x =>
      simp only [hx] at h
      obtain ⟨rfl, rfl⟩ := pure_eq_ok.mp h
      obtain ⟨hwf, rfl⟩ := Numeral.eq_text_of_read? hx
      obtain ⟨hspan, hend⟩ := spans_of_partText hs
      refine ⟨x, hwf, hspan, fun c hc => ?_, rfl⟩
      have hany : x.text.any isExponentMark = x.exponent.isSome := by
        rw [Bool.eq_iff_iff, List.any_eq_true]
        exact Numeral.exists_mark_iff hwf
      rw [← hany]
      exact hend c hc
  · rintro ⟨x, hwf, hspan, hend, rfl⟩
    rw [part, bind_of_ok (partText_of_spans hwf hspan hend), Numeral.read?_text hwf]
    exact pure_eq_ok.mpr ⟨rfl, rfl⟩

theorem imaginary_eq_ok {v : Binary64} :
    imaginary p = .ok v q ↔
      ∃ x : Numeral, x.WellFormed ∧ Spans p (x.text ++ ['j']) q ∧ v = x.value := by
  constructor
  · intro h
    obtain ⟨w, a, ha, h⟩ := bind_eq_ok.mp h
    obtain ⟨u, b, hb, h⟩ := bind_eq_ok.mp h
    obtain ⟨rfl, rfl⟩ := pure_eq_ok.mp h
    obtain ⟨x, hwf, hspan, -, rfl⟩ := part_eq_ok.mp ha
    exact ⟨x, hwf, hspan.append (mark_eq_ok.mp hb), rfl⟩
  · rintro ⟨x, hwf, hspan, rfl⟩
    obtain ⟨a, hx, hj⟩ := hspan.split
    have hend : x.Ends a.rest := Numeral.ends_of_head fun c hc => by
      obtain rfl : 'j' = c := by simpa [hj.head] using hc
      rfl
    rw [imaginary, bind_of_ok (part_eq_ok.mpr ⟨x, hwf, hx, hend, rfl⟩),
      bind_of_ok (mark_of_head hj)]
    exact pure_eq_ok.mpr ⟨rfl, rfl⟩

/-! ## 4. Complex numbers -/

/-- **A second number may begin just where the first one ends**: the scan of the first stops
before a sign, and after an exponent before a point. -/
theorem joins_iff_ends {x y : Numeral} (hy : y.WellFormed) (s : List Char) :
    Joins x y ↔ x.Ends (y.text ++ s) := by
  obtain ⟨c, t, ht, hc⟩ := Numeral.exists_head hy
  have hends : x.Ends (y.text ++ s) ↔ if x.exponent.isSome then c.isDigit = false
      else isMantissaChar c = false ∧ isExponentMark c = false := by
    simp [Numeral.Ends, ht]
  have hjoins : Joins x y ↔ c = '+' ∨ c = '-' ∨ (c = '.' ∧ x.exponent.isSome) := by
    simp [Joins, ht]
  rw [hends, hjoins]
  rcases hc with hc | hc
  · have hsign : c = '+' ∨ c = '-' := by simpa [isSign] using hc
    rcases hsign with rfl | rfl
    · exact iff_of_true (Or.inl rfl) (by split <;> decide)
    · exact iff_of_true (Or.inr (Or.inl rfl)) (by split <;> decide)
  · have hplus : c ≠ '+' := by rintro rfl; revert hc; decide
    have hminus : c ≠ '-' := by rintro rfl; revert hc; decide
    by_cases hpoint : c = '.'
    · subst hpoint
      cases x.exponent.isSome <;> decide
    · have hdigit : c.isDigit = true := by simpa [isMantissaChar, hpoint] using hc
      simp [hplus, hminus, hpoint, hdigit, hc]

/-- A complex number without a real part, or one in parentheses. -/
theorem complex_eq_ok :
    complex p = .ok n q ↔
      (∃ x : Numeral, x.WellFormed ∧ Spans p (x.text ++ ['j']) q ∧ n = .complex .zero x.value) ∨
      ∃ x y : Numeral, x.WellFormed ∧ y.WellFormed ∧ Joins x y ∧
        Spans p ('(' :: (x.text ++ (y.text ++ ['j', ')']))) q ∧ n = .complex x.value y.value := by
  constructor
  · intro h
    obtain ⟨c, a, ha, h⟩ := bind_eq_ok.mp h
    obtain ⟨hc, rfl⟩ := peek_eq_ok.mp ha
    split at h
    next heq =>
      subst heq
      obtain ⟨d, b, hb, h⟩ := bind_eq_ok.mp h
      rw [next_eq_ok] at hb
      obtain rfl : '(' = d := by simpa [hb.head] using hc.symm
      obtain ⟨re, e, he, h⟩ := bind_eq_ok.mp h
      obtain ⟨im, f, hf, h⟩ := bind_eq_ok.mp h
      obtain ⟨u, g, hg, h⟩ := bind_eq_ok.mp h
      obtain ⟨rfl, rfl⟩ := pure_eq_ok.mp h
      obtain ⟨x, hx, hxs, hxe, rfl⟩ := part_eq_ok.mp he
      obtain ⟨y, hy, hys, rfl⟩ := imaginary_eq_ok.mp hf
      refine Or.inr ⟨x, y, hx, hy, ?_, ?_, rfl⟩
      · rw [joins_iff_ends hy (['j'] ++ f.rest), ← List.append_assoc, ← hys.rest]
        exact hxe
      · simpa using hb.cons (hxs.append (hys.append (mark_eq_ok.mp hg)))
    next =>
      obtain ⟨im, b, hb, h⟩ := bind_eq_ok.mp h
      obtain ⟨rfl, rfl⟩ := pure_eq_ok.mp h
      obtain ⟨x, hx, hxs, rfl⟩ := imaginary_eq_ok.mp hb
      exact Or.inl ⟨x, hx, hxs, rfl⟩
  · rintro (⟨x, hx, hspan, rfl⟩ | ⟨x, y, hx, hy, hjoin, hspan, rfl⟩)
    · obtain ⟨c, t, ht, hc⟩ := Numeral.exists_head hx
      have hne : c ≠ '(' := by rintro rfl; revert hc; decide
      have hhead : p.rest.head? = some c := by simp [hspan.rest, ht]
      rw [complex, bind_of_ok (peek_of_head hhead), if_neg hne,
        bind_of_ok (imaginary_eq_ok.mpr ⟨x, hx, hspan, rfl⟩)]
      exact pure_eq_ok.mpr ⟨rfl, rfl⟩
    · obtain ⟨a, ha, hspan⟩ := hspan.uncons
      obtain ⟨b, hb, hspan⟩ := hspan.split
      obtain ⟨c, hc, hd⟩ := (show Spans b ((y.text ++ ['j']) ++ [')']) q by simpa using hspan).split
      have hend : x.Ends b.rest := by
        rw [hc.rest, List.append_assoc]
        exact (joins_iff_ends hy _).mp hjoin
      rw [complex, bind_of_ok (peek_of_head ha.head), if_pos rfl,
        bind_of_ok (next_eq_ok.mpr ha), bind_of_ok (part_eq_ok.mpr ⟨x, hx, hb, hend, rfl⟩),
        bind_of_ok (imaginary_eq_ok.mpr ⟨y, hy, hc, rfl⟩), bind_of_ok (mark_of_head hd)]
      exact pure_eq_ok.mpr ⟨rfl, rfl⟩

/-! ## 5. Strings -/

/-- Raw characters that need no second look are read as themselves. -/
theorem unescape_cons {c : Char} (h : c ≠ '\\') (s : List Char) :
    Text.Quoted.unescape (c :: s) = c :: Text.Quoted.unescape s := by
  rw [Text.Quoted.unescape]
  exact fun e t hc => absurd hc h

theorem body_of_stringBody {quote : Char} {o : Nat} {s text : List Char}
    (h : stringBody quote o s = .ok text q) :
    ∃ raw, Body quote raw ∧ Spans ⟨o, s⟩ (raw ++ [quote]) q ∧
      text = Text.Quoted.unescape raw := by
  fun_induction stringBody quote o s generalizing text with
  | case1 => cases h
  | case2 o rest =>
    obtain ⟨rfl, rfl⟩ := Outcome.ok.inj h
    exact ⟨[], .nil, ⟨rfl, rfl⟩, rfl⟩
  | case3 => cases h
  | case4 o e rest text' stop heq _ ih =>
    obtain ⟨rfl, rfl⟩ := Outcome.ok.inj h
    obtain ⟨raw, hraw, hspan, rfl⟩ := ih heq
    have hhead : Spans ⟨o, '\\' :: e :: rest⟩ ['\\', e] ⟨o + 2, rest⟩ := ⟨rfl, rfl⟩
    exact ⟨'\\' :: e :: raw, .escaped hraw, by simpa using hhead.append hspan, rfl⟩
  | case5 => cases h
  | case6 o c rest hquote hback text' stop heq ih =>
    obtain ⟨rfl, rfl⟩ := Outcome.ok.inj h
    obtain ⟨raw, hraw, hspan, rfl⟩ := ih heq
    have hhead : Spans ⟨o, c :: rest⟩ [c] ⟨o + 1, rest⟩ := ⟨rfl, rfl⟩
    exact ⟨c :: raw, .plain hquote hback hraw, by simpa using hhead.append hspan,
      (unescape_cons hback raw).symm⟩
  | case7 => cases h

theorem stringBody_of_body {quote : Char} (hq : quote ≠ '\\') {raw : List Char}
    (h : Body quote raw) (o : Nat) (rest : List Char) :
    stringBody quote o (raw ++ quote :: rest) =
      .ok (Text.Quoted.unescape raw) ⟨o + (raw.length + 1), rest⟩ := by
  induction h generalizing o with
  | nil =>
    unfold stringBody
    exact if_pos rfl
  | @plain c t hquote hback _ ih =>
    rw [List.cons_append, stringBody.eq_def, unescape_cons hback]
    simp only [if_neg hquote, if_neg hback, ih, List.length_cons, Nat.add_assoc, Nat.add_comm 1]
  | @escaped c t _ ih =>
    rw [List.cons_append, List.cons_append, stringBody.eq_def]
    simp only [if_neg hq.symm, if_pos, ih, Text.Quoted.unescape, List.length_cons, Nat.add_assoc,
      Nat.add_comm 2]

/-- **A string ends at its first unescaped quote**, and means what the raw text before it does. -/
theorem stringBody_eq_ok {quote : Char} (hq : quote ≠ '\\') {o : Nat} {s text : List Char} :
    stringBody quote o s = .ok text q ↔
      ∃ raw, Body quote raw ∧ Spans ⟨o, s⟩ (raw ++ [quote]) q ∧
        text = Text.Quoted.unescape raw := by
  refine ⟨body_of_stringBody, ?_⟩
  rintro ⟨raw, hraw, ⟨hrest, hoffset⟩, rfl⟩
  obtain ⟨o', s'⟩ := q
  simp only [List.append_assoc, List.length_append] at hrest hoffset
  rw [hrest, hoffset]
  exact stringBody_of_body hq hraw o s'

/-- A string, at a quote. -/
theorem string_eq_ok (hquote : ∀ c ∈ p.rest.head?, c = '\'' ∨ c = '"') :
    string p = .ok n q ↔ ∃ quote raw, (quote = '\'' ∨ quote = '"') ∧ Body quote raw ∧
      Spans p (quote :: (raw ++ [quote])) q ∧
      n = .scalar (.str (String.ofList (Text.Quoted.unescape raw))) := by
  have hback : ∀ {c : Char}, c = '\'' ∨ c = '"' → c ≠ '\\' := by
    rintro c (rfl | rfl) <;> decide
  constructor
  · intro h
    obtain ⟨quote, a, ha, h⟩ := bind_eq_ok.mp h
    obtain ⟨text, b, hb, h⟩ := bind_eq_ok.mp h
    obtain ⟨rfl, rfl⟩ := pure_eq_ok.mp h
    rw [next_eq_ok] at ha
    have hq := hquote quote (by simp [ha.head])
    obtain ⟨raw, hraw, hspan, rfl⟩ := (stringBody_eq_ok (hback hq)).mp hb
    exact ⟨quote, raw, hq, hraw, ha.cons hspan, rfl⟩
  · rintro ⟨quote, raw, hq, hraw, hspan, rfl⟩
    obtain ⟨a, ha, hspan⟩ := hspan.uncons
    rw [string, bind_of_ok (next_eq_ok.mpr ha)]
    have hbody := (stringBody_eq_ok (hback hq)).mpr ⟨raw, hraw, hspan, rfl⟩
    exact (bind_of_ok hbody).trans (pure_eq_ok.mpr ⟨rfl, rfl⟩)

/-! ## 6. Names -/

theorem noneLiteral_eq_ok :
    noneLiteral p = .ok n q ↔ Spans p ['N', 'o', 'n', 'e'] q ∧ n = .none := by
  constructor
  · intro h
    obtain ⟨b, a, ha, h⟩ := bind_eq_ok.mp h
    cases b with
    | false => exact absurd h fail_ne_ok
    | true =>
      obtain ⟨rfl, rfl⟩ := pure_eq_ok.mp h
      exact ⟨word_eq_ok ha, rfl⟩
  · rintro ⟨h, rfl⟩
    exact (bind_of_ok (word_of_spans h)).trans (pure_eq_ok.mpr ⟨rfl, rfl⟩)

/-- A truth value. -/
theorem bool_eq_ok :
    bool p = .ok n q ↔
      (Spans p ['T', 'r', 'u', 'e'] q ∧ n = .scalar (.bool true)) ∨
      (Spans p ['F', 'a', 'l', 's', 'e'] q ∧ n = .scalar (.bool false)) := by
  constructor
  · intro h
    obtain ⟨b, a, ha, h⟩ := bind_eq_ok.mp h
    cases b with
    | true =>
      obtain ⟨rfl, rfl⟩ := pure_eq_ok.mp h
      exact Or.inl ⟨word_eq_ok ha, rfl⟩
    | false =>
      obtain rfl : p = a := word_eq_ok ha
      obtain ⟨b, a, ha, h⟩ := bind_eq_ok.mp h
      cases b with
      | true =>
        obtain ⟨rfl, rfl⟩ := pure_eq_ok.mp h
        exact Or.inr ⟨word_eq_ok ha, rfl⟩
      | false => exact absurd h fail_ne_ok
  · rintro (⟨h, rfl⟩ | ⟨h, rfl⟩)
    · exact (bind_of_ok (word_of_spans h)).trans (pure_eq_ok.mpr ⟨rfl, rfl⟩)
    · have hno : (word ['T', 'r', 'u', 'e'] : Rule Id Bool) p = .ok false p := by
        refine word_of_not_isPrefix ?_
        rw [h.rest]
        rfl
      refine (bind_of_ok hno).trans ((bind_of_ok (word_of_spans h)).trans ?_)
      exact pure_eq_ok.mpr ⟨rfl, rfl⟩

end Literals.Reader
