/-
# The tokens of a printed tree

The printer and the table of the lexer know of each other's language nowhere, and yet **no printed
tree has an error in its tokens** (`lexes_printed`): every word, number, string and bracket that the
printer writes is one that a rule of the right state takes whole, whatever may follow it.

What may follow a part is said once (`Delimited`).  A part passes (`Passes`) if behind every
character that is no part of a word, and before every such continuation, its tokens hold no error
and leave the lexer outside strings; that it starts with no blank and contains no line break goes
with it, since the parts of a tree pass on both.
-/
import Literals.Proofs.Decoding
import Literals.Proofs.Lexing
import Literals.Proofs.NumeralTokens
import Literals.Proofs.RoundTrip

namespace Literals.Highlight

open Grammar Number Text

/-! ## 1. Texts without errors -/

/-- From here on the tokens hold no error, and the lexer ends outside strings. -/
def Clean (m : Mode) (b : Option Char) (s : List Char) : Prop :=
  (∀ tok ∈ (lexFrom m b s).1, tok.tokenClass ≠ .error) ∧ (lexFrom m b s).2 = .root

section Clean

variable {m m' : Mode} {b b' : Option Char} {c : Char} {w s t : List Char} {cls : TokenClass}

theorem lexFrom_cons (m : Mode) (b : Option Char) (c : Char) (s : List Char) :
    let step := nextStep m b c s
    let r := lexFrom step.mode (c :: s.take step.extra).getLast? (s.drop step.extra)
    lexFrom m b (c :: s) = (⟨step.tokenClass, c :: s.take step.extra⟩ :: r.1, r.2) := by
  rw [lexFrom]

theorem clean_nil (b : Option Char) : Clean .root b [] := by
  simp [Clean, lexFrom]

/-- Behind a token that is no error, all depends on what follows. -/
theorem clean_token_iff (hstep : nextStep m b c (w ++ t) = ⟨cls, w.length, m'⟩)
    (hcls : cls ≠ .error) : Clean m b (c :: w ++ t) ↔ Clean m' (c :: w).getLast? t := by
  rw [Clean, List.cons_append, lexFrom_cons, hstep]
  dsimp only
  rw [List.take_left, List.drop_left, List.forall_mem_cons]
  exact ⟨fun h => ⟨h.1.2, h.2⟩, fun h => ⟨⟨hcls, h.1⟩, h.2⟩⟩

/-- A token of one character. -/
theorem Clean.one (h : Clean m' (some c) t) (hstep : nextStep m b c t = ⟨cls, 0, m'⟩)
    (hcls : cls ≠ .error) : Clean m b (c :: t) := by
  have hnil : nextStep m b c ([] ++ t) = ⟨cls, ([] : List Char).length, m'⟩ := hstep
  exact (clean_token_iff hnil hcls).mpr h

/-- Punctuation is a token, whatever is around it. -/
theorem Clean.punctuation (h : Clean .root (some c) t) (hc : isPunctuation c = true) :
    Clean .root b (c :: t) := by
  have hstep : nextStep .root b c t = ⟨.punctuation, 0, .root⟩ := by
    have hmem := List.contains_iff_mem.mp hc
    simp only [List.mem_cons, List.not_mem_nil, or_false] at hmem
    rcases hmem with rfl | rfl | rfl | rfl | rfl | rfl | rfl | rfl <;> rfl
  exact h.one hstep (by decide)

/-- A blank alone is a token. -/
theorem Clean.blank (h : Clean .root (some c) t) (hc : isBlank c = true)
    (ht : ∀ d ∈ t.head?, isBlank d = false) : Clean .root b (c :: t) := by
  have hcount : countWhile isBlank t = 0 := countWhile_append (s := []) (List.forall_mem_nil _) ht
  have hstep : nextStep .root b c t = ⟨.text, 0, .root⟩ := by
    rw [← hcount]
    exact if_pos hc
  exact h.one hstep (by decide)

/-! ## 2. Strings -/

/-- Inside a string it does not matter what was in front. -/
theorem clean_single_iff (b b' : Option Char) (s : List Char) :
    Clean .singleQuoted b s ↔ Clean .singleQuoted b' s := by
  have heq : lexFrom .singleQuoted b s = lexFrom .singleQuoted b' s := by
    cases s with
    | nil => rw [lexFrom, lexFrom]
    | cons c s =>
      rw [lexFrom_cons, lexFrom_cons]
      rfl
  rw [Clean, Clean, heq]

/-- The characters that need no rule of their own between single quotes. -/
def isPlain (c : Char) : Bool :=
  c != '\'' && c != '\\'

theorem nextStep_plain (hc : isPlain c = true) (b : Option Char) (s : List Char) :
    nextStep .singleQuoted b c s = ⟨.singleQuoted, countWhile isPlain s, .singleQuoted⟩ := by
  rw [isPlain, Bool.and_eq_true, bne_iff_ne, bne_iff_ne] at hc
  change stringStep '\'' .singleQuoted .singleQuoted c s = _
  unfold stringStep
  rw [if_neg hc.2, if_neg hc.1]
  rfl

theorem Clean.plain (h : Clean .singleQuoted b t) (hc : isPlain c = true) :
    Clean .singleQuoted b' (c :: t) := by
  have hrun : ∀ d ∈ t.takeWhile isPlain, isPlain d = true := fun d hd => List.mem_takeWhile_imp hd
  have hstop : ∀ d ∈ (t.dropWhile isPlain).head?, isPlain d = false := fun d hd => by
    have hhead := List.head?_dropWhile_not isPlain t
    rw [Option.mem_def.mp hd] at hhead
    simpa using hhead
  rw [← List.takeWhile_append_dropWhile (p := isPlain) (l := t)] at h ⊢
  generalize t.takeWhile isPlain = w at h hrun ⊢
  generalize t.dropWhile isPlain = u at h hstop ⊢
  -- The token goes on to where the run ends, and so does the one that starts behind this character.
  have hstep : ∀ (d : Char) (v : List Char), isPlain d = true → (∀ e ∈ v, isPlain e = true) →
      ∀ b, nextStep .singleQuoted b d (v ++ u) = ⟨.singleQuoted, v.length, .singleQuoted⟩ :=
    fun d v hd hv b => by rw [nextStep_plain hd, countWhile_append hv hstop]
  have hrest : Clean .singleQuoted b u := by
    cases w with
    | nil => exact h
    | cons d w =>
      obtain ⟨hd, hw⟩ := List.forall_mem_cons.mp hrun
      exact (clean_single_iff _ _ _).mp ((clean_token_iff (hstep d w hd hw b) (by decide)).mp h)
  exact (clean_token_iff (hstep c w hc hrun b') (by decide)).mpr ((clean_single_iff _ _ _).mp hrest)

/-- A backslash and the character behind it are a token, if that is no line feed. -/
theorem Clean.escaped (h : Clean .singleQuoted b t) (hc : c ≠ '\n') :
    Clean .singleQuoted b' ('\\' :: c :: t) := by
  have hstep : nextStep .singleQuoted b' '\\' ([c] ++ t) = ⟨.escape, 1, .singleQuoted⟩ := by
    change (if c = '\n' then _ else _) = _
    rw [if_neg hc]
  exact (clean_token_iff hstep (by decide)).mpr ((clean_single_iff _ _ _).mp h)

/-- A whole string. -/
theorem Clean.body (h : Clean .root (some '\'') t) (hs : Body '\'' s) (hfeed : '\n' ∉ s) :
    Clean .singleQuoted b (s ++ '\'' :: t) := by
  induction hs generalizing b with
  | nil =>
    have hstep : nextStep .singleQuoted b '\'' t = ⟨.singleQuoted, 0, .root⟩ := rfl
    exact h.one hstep (by decide)
  | @plain c s hquote hescape _ ih =>
    rw [List.mem_cons, not_or] at hfeed
    exact (ih hfeed.2 (b := none)).plain (by simp [isPlain, hquote, hescape])
  | @escaped c s _ ih =>
    simp only [List.mem_cons, not_or] at hfeed
    exact (ih hfeed.2.2 (b := none)).escaped (Ne.symm hfeed.2.1)

end Clean

/-! ## 3. Parts of a printed tree -/

/-- The text ends, or goes on with a character that may follow a printed tree. -/
def Delimited (t : List Char) : Prop :=
  ∀ c ∈ t.head?, isStop c = true ∨ c = '\n'

theorem Delimited.cons {c : Char} (h : isStop c = true) (t : List Char) : Delimited (c :: t) := by
  rintro d ⟨⟩
  exact Or.inl h

/-- None of the characters around the parts of a printed tree is part of a word. -/
theorem not_wordChar :
    ∀ c ∈ [' ', ',', ':', '(', ')', '[', ']', '\x7b', '\x7d', '\n'], isWordChar c = false :=
  forall_mem_of_all (by decide +kernel)

theorem not_word_before {c : Char} (h : isWordChar c = false) :
    (some c).any isWordChar = false := by
  rw [Option.any_some, h]

theorem Delimited.cases {t : List Char} (h : Delimited t) : ∀ c ∈ t.head?,
    isMantissa c = false ∧ isMark c = false ∧ c ≠ 'j' ∧ isWordChar c = false := by
  intro c hc
  have hstop := h c hc
  simp only [isStop, Bool.or_eq_true, beq_iff_eq] at hstop
  rcases hstop with ((((rfl | rfl) | rfl) | rfl) | rfl) | rfl <;>
    exact ⟨by decide, by decide, by decide, not_wordChar _ (by decide)⟩

/-- A text that passes through the lexer without an error, behind everything that is no part of a
word and before every continuation that passes too. -/
structure Passes (w : List Char) : Prop where
  head : ∃ c s, w = c :: s ∧ isBlank c = false ∧ c ≠ '\uFEFF'
  unbroken : ∀ c ∈ w, c ≠ '\n' ∧ c ≠ '\r'
  clean : ∀ b t, b.any isWordChar = false → Delimited t → (∀ b, Clean .root b t) →
    Clean .root b (w ++ t)

theorem passes_keyword {w : List Char} (hw : w ∈ keywords) : Passes w := by
  have hlength : ∀ {b : Option Char} {t : List Char}, b.any isWordChar = false → Delimited t →
      keywordLength? b (w ++ t) = some w.length := by
    intro b t hb ht
    have hafter : t.head?.any isWordChar = false := by
      cases hhead : t.head? with
      | none => rfl
      | some c => exact (ht.cases c hhead).2.2.2
    have hfind : keywords.find? (fun v => v.isPrefixOf (w ++ t)) = some w := by
      simp only [keywords, List.mem_cons, List.not_mem_nil, or_false] at hw
      rcases hw with rfl | rfl | rfl <;> rfl
    rw [keywordLength?, hfind]
    dsimp only
    rw [hb, List.drop_left, hafter]
    rfl
  have hstart : ∃ c s, w = c :: s ∧ isBlank c = false ∧ c ≠ '\'' ∧ c ≠ '"' ∧ c ≠ '\uFEFF' := by
    simp only [keywords, List.mem_cons, List.not_mem_nil, or_false] at hw
    rcases hw with rfl | rfl | rfl <;> exact ⟨_, _, rfl, by decide⟩
  obtain ⟨c, s, rfl, hblank, hsingle, hdouble, hmark⟩ := hstart
  refine ⟨⟨c, s, rfl, hblank, hmark⟩, ?_, fun b t hb ht hclean => ?_⟩
  · simp only [keywords, List.mem_cons, List.not_mem_nil, or_false] at hw
    rcases hw with hw | hw | hw <;> rw [hw] <;> exact forall_mem_of_all (by decide)
  · have hstep : nextStep .root b c (s ++ t) = ⟨.keyword, s.length, .root⟩ := by
      have hkeyword := hlength hb ht
      rw [List.cons_append] at hkeyword
      change rootStep b c (s ++ t) = _
      rw [rootStep_eq, if_neg (Bool.eq_false_iff.mp hblank), if_neg hsingle, if_neg hdouble,
        hkeyword]
      rfl
    exact (clean_token_iff hstep (by decide)).mpr (hclean _)

/-- A character is written without line breaks, escaped or not. -/
theorem unbroken_escape (d : Char) : ∀ c ∈ Quoted.escape d, c ≠ '\n' ∧ c ≠ '\r' := by
  unfold Quoted.escape
  split
  next e he =>
    unfold Quoted.escapeLetter? at he
    split at he <;>
      first | (obtain rfl := Option.some.inj he; exact forall_mem_of_all (by decide)) | cases he
  next hnone =>
    intro c hc
    obtain rfl := List.mem_singleton.mp hc
    constructor <;> (rintro rfl; cases hnone)

theorem passes_encode (s : List Char) : Passes (Quoted.encode s) := by
  have hbody : ∀ c ∈ s.flatMap Quoted.escape, c ≠ '\n' ∧ c ≠ '\r' := fun c hc => by
    obtain ⟨d, -, hc⟩ := List.mem_flatMap.mp hc
    exact unbroken_escape d c hc
  refine ⟨⟨_, _, rfl, by decide, by decide⟩, ?_, fun b t _ _ hclean => ?_⟩
  · simp only [Quoted.encode, List.forall_mem_cons, List.forall_mem_append]
    exact ⟨by decide, hbody, by decide, List.forall_mem_nil _⟩
  · have hstep : nextStep .root b '\'' (s.flatMap Quoted.escape ++ '\'' :: t) =
        ⟨.singleQuoted, 0, .singleQuoted⟩ := rfl
    have hrest := (hclean (some '\'')).body (b := some '\'') (body_flatMap_escape s)
      fun hfeed => (hbody _ hfeed).1 rfl
    have htext : Quoted.encode s ++ t = '\'' :: (s.flatMap Quoted.escape ++ '\'' :: t) := by
      simp [Quoted.encode]
    rw [htext]
    exact hrest.one hstep (by decide)

/-! ## 4. Numbers -/

/-- A number is one token. -/
theorem rootStep_number {c : Char} {s : List Char} {step : Step} (hc : c ∈ numberStarts)
    (h : numberStep? (c :: s) = some step) (b : Option Char) : rootStep b c s = step := by
  obtain ⟨hblank, hsingle, hdouble, hF, hN, hT⟩ := forall_numberStart
    (P := fun c => isBlank c = false ∧ c ≠ '\'' ∧ c ≠ '"' ∧ c ≠ 'F' ∧ c ≠ 'N' ∧ c ≠ 'T')
    (by decide) c hc
  have hkeyword : keywordLength? b (c :: s) = none := by
    have hnone : keywords.find? (fun w => w.isPrefixOf (c :: s)) = none := by
      simp [keywords, hF.symm, hN.symm, hT.symm]
    rw [keywordLength?, hnone]
  rw [rootStep_eq, if_neg (Bool.eq_false_iff.mp hblank), if_neg hsingle, if_neg hdouble, hkeyword,
    h]
  rfl

section Numerals

variable {x : Numeral} {b : Option Char} {t : List Char}

theorem numeral_head (hx : x.WellFormed) :
    ∃ c s, x.text = c :: s ∧ c ∈ numberStarts := by
  obtain ⟨c, s, hs, hc⟩ := Numeral.exists_head hx
  exact ⟨c, s, hs, mem_numberStarts hc⟩

theorem unbroken_numeral (hx : x.WellFormed) : ∀ c ∈ x.text, c ≠ '\n' ∧ c ≠ '\r' := fun _ hc =>
  of_isFloatChar (P := fun c => c ≠ '\n' ∧ c ≠ '\r') (by decide)
    (Numeral.isFloatChar_of_mem_text hx _ hc)

theorem clean_numeral (h : ∀ b, Clean .root b t) (hx : x.WellFormed) (hplus : x.sign ≠ .plus)
    (ht : Behind t) (hunit : t.head? ≠ some 'j') : Clean .root b (x.text ++ t) := by
  obtain ⟨c, s, hs, hc⟩ := numeral_head hx
  have hnumber := numberStep?_text hx hplus ht hunit
  rw [hs] at hnumber ⊢
  have hclass : numberClass x ≠ .error := by
    unfold numberClass
    split <;> decide
  have hstep : nextStep .root b c (s ++ t) = ⟨numberClass x, s.length, .root⟩ :=
    rootStep_number hc hnumber b
  exact (clean_token_iff hstep hclass).mpr (h _)

theorem clean_imaginary (h : Clean .root (some 'j') t) (hx : x.WellFormed) :
    Clean .root b (x.text ++ 'j' :: t) := by
  obtain ⟨c, s, hs, hc⟩ := numeral_head hx
  have hnumber := numberStep?_imaginary hx t
  rw [hs] at hnumber ⊢
  have hstep : nextStep .root b c ((s ++ ['j']) ++ t) = ⟨.number, (s ++ ['j']).length, .root⟩ := by
    rw [List.append_assoc, List.length_append]
    exact rootStep_number hc hnumber b
  have hclean := clean_token_iff hstep (by decide)
  rw [← List.cons_append, List.getLast?_concat, List.append_assoc] at hclean
  exact hclean.mpr h

/-- A numeral that no plus stands before. -/
theorem passes_numeral (hx : x.WellFormed) (hplus : x.sign ≠ .plus) : Passes x.text := by
  obtain ⟨c, s, hs, hc⟩ := numeral_head hx
  have hhead := forall_numberStart (P := fun c => isBlank c = false ∧ c ≠ '\uFEFF') (by decide) c hc
  refine ⟨⟨c, s, hs, hhead⟩, unbroken_numeral hx, fun b t _ ht hclean => ?_⟩
  refine clean_numeral hclean hx hplus (fun d hd => ?_) fun hunit => ?_
  · obtain ⟨hmantissa, hmark, -, -⟩ := ht.cases d hd
    exact ⟨hmantissa, hmark⟩
  · exact (ht.cases 'j' hunit).2.2.1 rfl

/-- An integer. -/
theorem passes_integer (minus : Bool) {ds : List Char} (hds : Digits ds) :
    Passes (minusText minus ++ ds) := by
  obtain ⟨x, hx⟩ : ∃ x : Numeral, x = ⟨if minus then .minus else .absent, ds, none, none⟩ :=
    ⟨_, rfl⟩
  have htext : x.text = minusText minus ++ ds := by
    rw [hx]
    cases minus <;> simp [Numeral.text, Sign.text, minusText, Numeral.exponentText]
  have hwell : x.WellFormed := by
    rw [hx]
    refine ⟨?_, ?_, fun _ he => absurd he (Option.not_mem_none _)⟩
    · simpa [Numeral.fractionDigits] using hds.1
    · simpa [Numeral.fractionDigits] using hds.2
  have hplus : x.sign ≠ .plus := by
    rw [hx]
    cases minus <;> simp
  exact htext ▸ passes_numeral hwell hplus

theorem passes_complex {re im : Binary64} (hre : re.isNaN = false) (him : im.isNaN = false) :
    Passes (Node.complex re im).chars := by
  obtain ⟨x, hx, hplus, -, hxtext, -⟩ := exists_real hre
  obtain ⟨y, hy, hysign, hytext, -⟩ := exists_imaginary him
  have hchars : ∀ t, (Node.complex re im).chars ++ t =
      '(' :: (x.text ++ (y.text ++ 'j' :: ')' :: t)) := by
    intro t
    rw [Node.chars, hxtext, hytext]
    simp
  refine ⟨⟨'(', _, rfl, by decide, by decide⟩, ?_, fun b t _ _ hclean => ?_⟩
  · have hnil := hchars []
    rw [List.append_nil] at hnil
    rw [hnil]
    simp only [List.forall_mem_cons, List.forall_mem_append]
    exact ⟨by decide, unbroken_numeral hx, unbroken_numeral hy, by decide, by decide,
      List.forall_mem_nil _⟩
  · rw [hchars]
    refine Clean.punctuation ?_ (by decide)
    have hhead : ∀ c ∈ (y.text ++ 'j' :: ')' :: t).head?, c = '+' ∨ c = '-' := by
      intro c hc
      rw [List.head?_append] at hc
      rcases hysign with hsign | hsign <;> rw [hsign] at hc <;> cases hc
      · exact Or.inl rfl
      · exact Or.inr rfl
    refine clean_numeral (fun b => ?_) hx hplus (fun c hc => ?_) fun hunit => ?_
    · exact clean_imaginary ((hclean _).punctuation (by decide)) hy
    · rcases hhead c hc with rfl | rfl <;> decide
    · rcases hhead 'j' hunit with hc | hc <;> cases hc

/-- **Every scalar that the reader may return passes.** -/
theorem passes_scalar {s : Scalar} (h : s.Readable) : Passes s.chars := by
  have hint : ∀ n : Int, Passes (intText n) := fun n => by
    rw [intText_eq]
    exact passes_integer _ (digits_digits _)
  cases s with
  | int n => exact hint n
  | long n => exact hint n
  | float v =>
    obtain ⟨x, hx, hplus, -, htext, -⟩ := exists_real h
    change Passes (v.text .literal)
    exact htext ▸ passes_numeral hx hplus
  | decimal d =>
    change Passes d.text
    rw [text_of_exponent h]
    exact passes_integer _ (digits_digits _)
  | bool b => cases b <;> exact passes_keyword (by decide)
  | str s => exact passes_encode s.toList

end Numerals

/-! ## 5. Trees -/

section Trees

variable {xs : List Node} {t : List Char}

/-- Trees with commas before them, up to what follows. -/
theorem clean_continued (h : ∀ x ∈ xs, Passes x.chars) (ht : Delimited t)
    (hclean : ∀ b, Clean .root b t) :
    Delimited (Node.continued xs ++ t) ∧ ∀ b, Clean .root b (Node.continued xs ++ t) := by
  induction xs with
  | nil => exact ⟨ht, hclean⟩
  | cons x xs ih =>
    obtain ⟨hx, hxs⟩ := List.forall_mem_cons.mp h
    obtain ⟨hrest, hrestClean⟩ := ih hxs
    rw [Node.continued, List.cons_append, List.append_assoc]
    refine ⟨.cons rfl _, fun b => Clean.punctuation ?_ (by decide)⟩
    exact hx.clean (some ',') _ (not_word_before (not_wordChar ',' (by decide))) hrest hrestClean

theorem unbroken_continued (h : ∀ x ∈ xs, Passes x.chars) :
    ∀ c ∈ Node.continued xs, c ≠ '\n' ∧ c ≠ '\r' := by
  induction xs with
  | nil => exact List.forall_mem_nil _
  | cons x xs ih =>
    obtain ⟨hx, hxs⟩ := List.forall_mem_cons.mp h
    rw [Node.continued, List.forall_mem_cons, List.forall_mem_append]
    exact ⟨by decide, hx.unbroken, ih hxs⟩

/-- Trees with commas between them, behind what is no part of a word. -/
theorem clean_joined (h : ∀ x ∈ xs, Passes x.chars) (ht : Delimited t)
    (hclean : ∀ b, Clean .root b t) {b : Option Char} (hb : b.any isWordChar = false) :
    Clean .root b (Node.joined xs ++ t) := by
  cases xs with
  | nil => exact hclean b
  | cons x xs =>
    obtain ⟨hx, hxs⟩ := List.forall_mem_cons.mp h
    obtain ⟨hrest, hrestClean⟩ := clean_continued hxs ht hclean
    rw [Node.joined, List.append_assoc]
    exact hx.clean b _ hb hrest hrestClean

theorem unbroken_joined (h : ∀ x ∈ xs, Passes x.chars) :
    ∀ c ∈ Node.joined xs, c ≠ '\n' ∧ c ≠ '\r' := by
  cases xs with
  | nil => exact List.forall_mem_nil _
  | cons x xs =>
    obtain ⟨hx, hxs⟩ := List.forall_mem_cons.mp h
    rw [Node.joined, List.forall_mem_append]
    exact ⟨hx.unbroken, unbroken_continued hxs⟩

theorem unbroken_lastComma (shape : Shape) (xs : List Node) :
    ∀ c ∈ lastComma shape xs, c ≠ '\n' ∧ c ≠ '\r' := by
  unfold lastComma
  split <;> exact forall_mem_of_all (by decide)

/-- The closing bracket and the comma that may stand before it. -/
theorem clean_close {c : Char} (hc : isPunctuation c = true ∧ isStop c = true) (shape : Shape)
    (xs : List Node) (hclean : ∀ b, Clean .root b t) :
    Delimited (lastComma shape xs ++ c :: t) ∧
      ∀ b, Clean .root b (lastComma shape xs ++ c :: t) := by
  have hclose : ∀ b, Clean .root b (c :: t) := fun b => (hclean _).punctuation hc.1
  unfold lastComma
  split
  · exact ⟨.cons rfl _, fun b => (hclose _).punctuation (by decide)⟩
  · exact ⟨.cons hc.2 _, hclose⟩

/-- What is asked of the brackets of a shape. -/
theorem brackets_cases {shape : Shape} (h : shape ≠ .bare) :
    (isPunctuation shape.brackets.1 = true ∧ isBlank shape.brackets.1 = false ∧
      shape.brackets.1 ≠ '\uFEFF' ∧ isWordChar shape.brackets.1 = false) ∧
      isPunctuation shape.brackets.2 = true ∧ isStop shape.brackets.2 = true ∧
      shape.brackets.1 ≠ '\n' ∧ shape.brackets.1 ≠ '\r' ∧
      shape.brackets.2 ≠ '\n' ∧ shape.brackets.2 ≠ '\r' := by
  cases shape with
  | bare => exact absurd rfl h
  | _ => exact ⟨⟨by decide, by decide, by decide, not_wordChar _ (by decide)⟩, by decide⟩

theorem passes_sequence {shape : Shape} (hshape : shape ≠ .bare) (h : ∀ x ∈ xs, Passes x.chars) :
    Passes (Node.sequence shape xs).chars := by
  obtain ⟨⟨hopen, hblank, hmark, hword⟩, hclose, hstop, hfeed, hreturn, hfeed', hreturn'⟩ :=
    brackets_cases hshape
  rw [Node.chars]
  refine ⟨⟨_, _, rfl, hblank, hmark⟩, ?_, fun b t _ _ hclean => ?_⟩
  · simp only [List.forall_mem_cons, List.forall_mem_append]
    exact ⟨⟨hfeed, hreturn⟩, ⟨unbroken_joined h, unbroken_lastComma shape xs⟩, ⟨hfeed', hreturn'⟩,
      List.forall_mem_nil _⟩
  · obtain ⟨hrest, hrestClean⟩ := clean_close ⟨hclose, hstop⟩ shape xs hclean
    rw [List.cons_append, List.append_assoc, List.append_assoc]
    exact (clean_joined h hrest hrestClean (not_word_before hword)).punctuation hopen

/-- An entry of a dictionary. -/
theorem passes_ofPair {e : Node × Node} (hk : Passes e.1.chars) (hv : Passes e.2.chars) :
    Passes (Node.ofPair e).chars := by
  obtain ⟨c, s, hs, hc⟩ := hk.head
  rw [Node.ofPair, Node.chars]
  refine ⟨⟨c, s ++ ':' :: ' ' :: e.2.chars, by rw [hs]; rfl, hc⟩, ?_, fun b t hb ht hclean => ?_⟩
  · simp only [List.forall_mem_cons, List.forall_mem_append]
    exact ⟨hk.unbroken, by decide, by decide, hv.unbroken⟩
  · have hvalue : Clean .root (some ' ') (e.2.chars ++ t) :=
      hv.clean (some ' ') t (not_word_before (not_wordChar ' ' (by decide))) ht hclean
    have hblank : ∀ d ∈ (e.2.chars ++ t).head?, isBlank d = false := by
      obtain ⟨c, s, hs, hc, -⟩ := hv.head
      rw [hs]
      rintro d ⟨⟩
      exact hc
    rw [List.append_assoc]
    refine hk.clean b _ hb (.cons rfl _) fun b => ?_
    exact (hvalue.blank (by decide) hblank).punctuation (by decide)

/-- **Every printed tree passes.** -/
theorem passes_of_written {n : Node} (h : n.Written Scalar.Readable) : Passes n.chars := by
  induction h with
  | scalar hs => exact passes_scalar hs
  | none => exact passes_keyword (by decide)
  | complex hre him => exact passes_complex hre him
  | tuple _ ih => exact passes_sequence (by decide) ih
  | list _ ih => exact passes_sequence (by decide) ih
  | set _ _ ih => exact passes_sequence (by decide) ih
  | dict _ _ ihk ihv =>
    exact passes_sequence (by decide)
      (List.forall_mem_map.mpr fun e he => passes_ofPair (ihk e he) (ihv e he))

end Trees

/-! ## 6. The prepared text -/

theorem unifyBreaks_eq_self {s : List Char} (h : ∀ c ∈ s, c ≠ '\n' ∧ c ≠ '\r') :
    unifyBreaks s = s := by
  induction s with
  | nil => rfl
  | cons c s ih =>
    obtain ⟨hc, hs⟩ := List.forall_mem_cons.mp h
    rw [unifyBreaks.eq_4 _ _ (fun _ hreturn => absurd hreturn hc.2) hc.2, ih hs]

theorem stripFeeds_eq_self {s : List Char} (h : ∀ c ∈ s, c ≠ '\n' ∧ c ≠ '\r') :
    stripFeeds s = s := by
  have hdrop : ∀ {u : List Char}, (∀ c ∈ u, c ≠ '\n') → u.dropWhile (· == '\n') = u := by
    intro u hu
    cases u with
    | nil => rfl
    | cons c u =>
      have hc : ¬ (c == '\n') = true := by simpa using (hu c List.mem_cons_self)
      exact List.dropWhile_cons_of_neg hc
  rw [stripFeeds, hdrop fun c hc => (h c hc).1,
    hdrop fun c hc => (h c (List.mem_reverse.mp hc)).1, List.reverse_reverse]

/-- The text of a tree is prepared by a line feed alone. -/
theorem Passes.prepare {w : List Char} (h : Passes w) : Highlight.prepare w = w ++ ['\n'] := by
  obtain ⟨c, s, hs, -, hmark⟩ := h.head
  have hhead : w.head? ≠ some '\uFEFF' := by
    rw [hs]
    exact fun heq => hmark (Option.some.inj heq)
  rw [Highlight.prepare, if_neg hhead, unifyBreaks_eq_self h.unbroken,
    stripFeeds_eq_self h.unbroken]

/-- The text of a part and the line feed behind it hold no error. -/
theorem Passes.clean_line {w : List Char} (h : Passes w) : Clean .root none (w ++ ['\n']) := by
  refine h.clean none ['\n'] rfl ?_ fun b => (clean_nil _).blank rfl (by simp)
  rintro c ⟨⟩
  exact Or.inr rfl

/-- **The lexer knows the language of the printer**: lexing the text of a tree that was returned
gives no error, ends in the state that it started in, and the tokens make up the text and the line
feed that is put behind it. -/
theorem lexes_printed {t : Tree} (h : Reader.Returned t) :
    Lexes .start ⟨none, prepare t.root.text.toList⟩ (tokens t.root.text.toList) .start ∧
      (∀ tok ∈ tokens t.root.text.toList, tok.tokenClass ≠ .error) ∧
      String.ofList ((tokens t.root.text.toList).flatMap Token.lexeme) = t.root.text ++ "\n" := by
  obtain ⟨text, limit, hread⟩ := h.exists_read
  have hpasses := passes_of_written ((Reader.built_of_read hread).mono fun s hs => hs.1).written
  obtain ⟨hclasses, hlast⟩ := hpasses.clean_line
  have hlexes := lexes_lexFrom .root none (t.root.chars ++ ['\n'])
  rw [hlast] at hlexes
  rw [tokens, flatMap_lexeme_lexFrom, Reader.toList_text, hpasses.prepare]
  refine ⟨hlexes, hclasses, ?_⟩
  rw [String.ofList_append, Node.text]

/-- A dictionary with an escaped quote, a sign and a keyword in its text. -/
def entry : Node :=
  .dict [(.scalar (.str "it's"), .tuple [.scalar (.int (-7)), .none])]

theorem text_entry : entry.text = "\x7b'it\\'s': (-7,None)\x7d" := by
  decide +kernel

theorem read_entry : Reader.read "\x7b'it\\'s': (-7,None)\x7d" none = .ok ⟨entry⟩ := by
  have hseven : (Node.scalar (.int (-7))).Built Scalar.Readable := by
    refine .scalar ?_
    unfold Scalar.Readable
    decide
  have htuple : (Node.tuple [.scalar (.int (-7)), .none]).Built Scalar.Readable :=
    .tuple (by simp [hseven, Node.Built.none])
  have hkey : (Node.scalar (.str "it's")).Built Scalar.Readable := .scalar trivial
  have hentry : entry.Built Scalar.Readable := .dict (by simp [hkey]) (by simp [htuple])
  have hread := Reader.read_text hentry
  rw [text_entry] at hread
  exact hread

theorem lexes_printed_entry :
    Reader.Returned ⟨entry⟩ ∧
      Lexes .start ⟨none, prepare entry.text.toList⟩ (tokens entry.text.toList) .start ∧
      (∀ tok ∈ tokens entry.text.toList, tok.tokenClass ≠ .error) ∧
      String.ofList ((tokens entry.text.toList).flatMap Token.lexeme) =
        "\x7b'it\\'s': (-7,None)\x7d\n" := by
  have hreturned : Reader.Returned ⟨entry⟩ := ⟨none, Or.inl ⟨_, read_entry⟩⟩
  obtain ⟨hlexes, hclasses, htext⟩ := lexes_printed hreturned
  refine ⟨hreturned, hlexes, hclasses, htext.trans ?_⟩
  rw [text_entry]
  rfl

end Literals.Highlight
