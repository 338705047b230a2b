/-
# What is in the grammar is read

Every expression of the grammar is read with its tree, wherever it stands before the end of the
text or a character that may follow an expression.  The productions are tried in an order, and the
first that succeeds is final, so each must fail where a later one is meant: **a complex number at
every tuple, a set at every dictionary, and the longer kinds of numbers at the shorter ones.**

Each statement about a compound takes what it needs of the expressions inside as a hypothesis
`Complete expr bound`; the recursion is closed once, in `complete_expression`, by induction on the
number of characters left.
-/
import Literals.Proofs.Failure
import Literals.Proofs.Soundness

namespace Literals.Reader

open Number Grammar Rule

variable {p q : Point} {n : Node}

/-! ## 1. What may come after a literal -/

/-- What comes after a literal: blanks, the end, or a character that may follow an expression. -/
def AfterItem (s : List Char) : Prop :=
  ∀ c ∈ s.head?, Text.isBlank c = true ∨ isStop c = true

theorem afterItem_append {v s : List Char} (hv : Blank v) (hs : Follows s) :
    AfterItem (v ++ s) := by
  intro c hc
  cases v with
  | nil => exact Or.inr (hs c hc)
  | cons d t =>
    obtain rfl : d = c := by simpa using hc
    exact Or.inl (hv d List.mem_cons_self)

theorem AfterItem.not_begins {s : List Char} (h : AfterItem s) {c : Char} (hc : c ∈ s.head?) :
    ¬ Begins c := by
  rintro ⟨hblank, hstop⟩
  rcases h c hc with h | h
  · rw [hblank] at h; cases h
  · rw [hstop] at h; cases h

/-- No number goes on behind a literal. -/
theorem AfterItem.noFloatChar {s : List Char} (h : AfterItem s) :
    ∀ c ∈ s.head?, isFloatChar c = false := by
  intro c hc
  by_contra hfloat
  exact h.not_begins hc (begins_of_isFloatChar (by simpa using hfloat))

theorem AfterItem.noIntegerChar {s : List Char} (h : AfterItem s) :
    ∀ c ∈ s.head?, isIntegerChar c = false := by
  intro c hc
  have hfloat := h.noFloatChar c hc
  simp only [isFloatChar, isMantissaChar, isSign, Bool.or_eq_false_iff] at hfloat
  simp [isIntegerChar, hfloat.1.1.1, hfloat.1.2.2]

/-! ## 2. Numbers -/

/-- The numeral that an integer is. -/
def integerNumeral (minus : Bool) (ds : List Char) : Numeral :=
  ⟨if minus then .minus else .absent, ds, none, none⟩

theorem integerNumeral_text (minus : Bool) (ds : List Char) :
    (integerNumeral minus ds).text = minusText minus ++ ds := by
  cases minus <;> simp [integerNumeral, Numeral.text, Numeral.exponentText, Sign.text, minusText]

theorem integerNumeral_wellFormed {minus : Bool} {ds : List Char} (h : Digits ds) :
    (integerNumeral minus ds).WellFormed :=
  ⟨by simpa [integerNumeral, Numeral.fractionDigits] using h.1,
    by simpa [integerNumeral, Numeral.fractionDigits] using h.2, nofun⟩

/-- The characters of a numeral, as long as they go, are its text. -/
theorem span_numeral {x : Numeral} (hx : x.WellFormed) (h : Spans p x.text q)
    (hq : ∀ c ∈ q.rest.head?, isFloatChar c = false) : p.span isFloatChar = (x.text, q) :=
  span_eq h (Numeral.isFloatChar_of_mem_text hx) hq

theorem head_numeral {x : Numeral} (hx : x.WellFormed) {s : List Char}
    (h : Spans p (x.text ++ s) q) : ∃ c ∈ numberStarts, p.rest.head? = some c := by
  obtain ⟨c, t, ht, hc⟩ := Numeral.exists_head hx
  exact ⟨c, mem_numberStarts hc, by simp [h.rest, ht]⟩

/-- **A number without its mark is not complex.** -/
theorem complex_ne_ok_of_numeral {x : Numeral} (hx : x.WellFormed) (h : Spans p x.text q)
    (hq : AfterItem q.rest) (y : Node) (m : Point) : complex p ≠ .ok y m := by
  intro hok
  rcases complex_eq_ok.mp hok with ⟨z, hz, hspan, -⟩ | ⟨_, _, -, -, -, hspan, -⟩
  · obtain ⟨a, hza, hj⟩ := hspan.split
    have hrun := span_numeral hz hza fun c hc => by
      obtain rfl : 'j' = c := by simpa [hj.head] using hc
      rfl
    rw [span_numeral hx h hq.noFloatChar] at hrun
    obtain rfl : q = a := congrArg Prod.snd hrun
    exact hq.not_begins hj.head (by decide)
  · obtain ⟨c, hc, hhead⟩ := head_numeral hx (s := []) (by simpa using h)
    obtain rfl : '(' = c := by simpa [hspan.head] using hhead
    revert hc
    decide

/-- An integer is no floating-point number. -/
theorem float_ne_ok_of_integer {minus : Bool} {ds : List Char} (hds : Digits ds)
    (h : Spans p (minusText minus ++ ds) q) (hq : AfterItem q.rest) (y : Node) (m : Point) :
    float p ≠ .ok y m := by
  intro hok
  obtain ⟨x, hx, -, ⟨c, hc, hmark⟩, hspan, hend, -⟩ := float_eq_ok.mp hok
  have hrun := span_numeral hx hspan hend
  rw [← integerNumeral_text] at h
  rw [span_numeral (integerNumeral_wellFormed hds) h hq.noFloatChar, integerNumeral_text] at hrun
  have htext : minusText minus ++ ds = x.text := congrArg Prod.fst hrun
  have hchar := isIntegerChar_of_mem hds c (htext ▸ hc)
  rcases hmark with rfl | rfl | rfl <;> exact absurd hchar (by decide)

/-! ## 3. Literals that are no compounds -/

/-- Where a number starts, the kinds of numbers are tried. -/
theorem single_of_number {c : Char} (hc : c ∈ numberStarts) (h : p.rest.head? = some c) :
    single Strategy.plain.note p =
      attempt Strategy.plain.note .complex complex
        (attempt Strategy.plain.note .float float integer) p := by
  have hall : ∀ c ∈ numberStarts, c ≠ 'N' ∧ ¬ (c = 'T' ∨ c = 'F') ∧ ¬ isQuote c = true :=
    forall_numberStart (by decide)
  obtain ⟨hN, hTF, hquote⟩ := hall c hc
  rw [single, bind_of_ok (peek_of_head h), if_neg hN, if_neg hTF, if_neg hquote]
  rfl

/-- **A literal that is no compound is read with its tree.** -/
theorem single_of_item {w : List Char} {c : Char} (hw : Item w n) (h : Spans p w q)
    (hc : p.rest.head? = some c) (hopen : isOpening c = false) (hq : AfterItem q.rest) :
    single Strategy.plain.note p = .ok n q := by
  have hcompound : ∀ {d : Char} {v : List Char}, Spans p (d :: v) q → isOpening d = true →
      single Strategy.plain.note p = .ok n q := by
    intro d v hspan hd
    obtain rfl : d = c := by simpa [hspan.head] using hc
    rw [hd] at hopen
    cases hopen
  cases hw with
  | noneLiteral =>
    rw [single, bind_of_ok (peek_of_head h.head), if_pos rfl]
    exact noneLiteral_eq_ok.mpr ⟨h, rfl⟩
  | trueLiteral =>
    rw [single, bind_of_ok (peek_of_head h.head), if_neg (by decide), if_pos (by decide)]
    exact bool_eq_ok.mpr (Or.inl ⟨h, rfl⟩)
  | falseLiteral =>
    rw [single, bind_of_ok (peek_of_head h.head), if_neg (by decide), if_pos (by decide)]
    exact bool_eq_ok.mpr (Or.inr ⟨h, rfl⟩)
  | @string quote s hquote hs =>
    have hplain : quote ≠ 'N' ∧ ¬ (quote = 'T' ∨ quote = 'F') ∧ isQuote quote = true := by
      rcases hquote with rfl | rfl <;> decide
    rw [single, bind_of_ok (peek_of_head h.head), if_neg hplain.1, if_neg hplain.2.1,
      if_pos hplain.2.2]
    refine (string_eq_ok fun d hd => ?_).mpr ⟨quote, s, hquote, hs, h, rfl⟩
    obtain rfl : quote = d := by simpa [h.head] using hd
    exact hquote
  | @integer minus ds hds =>
    have hnumeral : Spans p (integerNumeral minus ds).text q := by rwa [integerNumeral_text]
    have hwf : (integerNumeral minus ds).WellFormed := integerNumeral_wellFormed hds
    obtain ⟨d, hd, hhead⟩ := head_numeral hwf (s := []) (by simpa using hnumeral)
    rw [single_of_number hd hhead,
      attempt_of_not_ok neverFinal_complex (complex_ne_ok_of_numeral hwf hnumeral hq),
      attempt_of_not_ok neverFinal_float (float_ne_ok_of_integer hds h hq)]
    exact integer_eq_ok.mpr ⟨minus, ds, hds, h, hq.noIntegerChar, rfl⟩
  | @float x hx hsign hmark =>
    obtain ⟨d, hd, hhead⟩ := head_numeral hx (s := []) (by simpa using h)
    rw [single_of_number hd hhead,
      attempt_of_not_ok neverFinal_complex (complex_ne_ok_of_numeral hx h hq)]
    exact attempt_of_ok (float_eq_ok.mpr ⟨x, hx, hsign, hmark, h, hq.noFloatChar, rfl⟩)
  | @imaginary x hx =>
    obtain ⟨d, hd, hhead⟩ := head_numeral hx h
    rw [single_of_number hd hhead]
    exact attempt_of_ok (complex_eq_ok.mpr (Or.inl ⟨x, hx, h, rfl⟩))
  | _ => exact hcompound h rfl

/-! ## 4. Expressions inside compounds -/

/-- The rule reads every expression of at most `bound` characters before the end of the text. -/
def Complete (expr : Rule Id Node) (bound : Nat) : Prop :=
  ∀ ⦃w : List Char⦄ ⦃x : Node⦄ ⦃p q : Point⦄, Expr w x → Spans p w q → Follows q.rest →
    p.rest.length ≤ bound → expr p = .ok x q

/-- Blanks in front of an expression may be skipped first. -/
theorem expr_skipBlanks {w : List Char} {x : Node} (hw : Expr w x) (h : Spans p w q) :
    ∃ v, Expr v x ∧ Spans p.skipBlanks v q ∧ ∃ c ∈ p.skipBlanks.rest.head?, Begins c := by
  cases hw with
  | @blanks u i v x hu hi hv =>
    obtain ⟨a, hua, ha⟩ := h.split
    obtain ⟨c, t, ht, hc⟩ := hi.exists_head
    have hhead : a.rest.head? = some c := by simp [ha.rest, ht]
    have hskip : p.skipBlanks = a := skipBlanks_eq hua hu fun d hd => by
      obtain rfl : c = d := by simpa [hhead] using hd
      exact hc.1
    rw [hskip]
    exact ⟨i ++ v, by simpa using Expr.blanks (u := []) nofun hi hv, ha, c, hhead, hc⟩

theorem exprs_skipBlanks {w : List Char} {xs : List Node} (hw : Exprs w xs) (h : Spans p w q) :
    ∃ v, Exprs v xs ∧ Spans p.skipBlanks v q ∧ ∃ c ∈ p.skipBlanks.rest.head?, Begins c := by
  cases hw with
  | one hx =>
    obtain ⟨v, hv, hspan, hc⟩ := expr_skipBlanks hx h
    exact ⟨v, .one hv, hspan, hc⟩
  | cons hx hxs =>
    obtain ⟨a, ha, h⟩ := h.split
    obtain ⟨v, hv, hspan, hc⟩ := expr_skipBlanks hx ha
    exact ⟨_, .cons hv hxs, hspan.append h, hc⟩

theorem entries_skipBlanks {w : List Char} {es : List (Node × Node)} (hw : Entries w es)
    (h : Spans p w q) :
    ∃ v, Entries v es ∧ Spans p.skipBlanks v q ∧ ∃ c ∈ p.skipBlanks.rest.head?, Begins c := by
  cases hw with
  | one hk hx =>
    obtain ⟨a, ha, h⟩ := h.split
    obtain ⟨v, hv, hspan, hc⟩ := expr_skipBlanks hk ha
    exact ⟨_, .one hv hx, hspan.append h, hc⟩
  | cons hk hx hes =>
    obtain ⟨a, ha, h⟩ := h.split
    obtain ⟨v, hv, hspan, hc⟩ := expr_skipBlanks hk ha
    exact ⟨_, .cons hv hx hes, hspan.append h, hc⟩

theorem length_skipBlanks (p : Point) : p.skipBlanks.rest.length ≤ p.rest.length := by
  obtain ⟨u, -, hu⟩ := spans_skipBlanks p
  have := hu.length_rest
  omega

theorem follows_of_head {c : Char} (h : p.rest.head? = some c) (hc : isStop c = true) :
    Follows p.rest := by
  intro d hd
  obtain rfl : c = d := by simpa [h] using hd
  exact hc

/-! ## 5. Sequences -/

/-- No further element comes: there is no comma, or one with the closing bracket behind it. -/
def Stops (closing : Option Char) (q : Point) : Prop :=
  Follows q.rest ∧ ∀ m, Spans q [','] m → closing.isSome ∧ m.skipBlanks.rest.head? = closing

theorem stops_of_head {closing : Option Char} {c : Char} (h : q.rest.head? = some c)
    (hc : isStop c = true) (hcomma : c ≠ ',') : Stops closing q :=
  ⟨follows_of_head h hc, fun m hm => absurd (by simpa [hm.head] using h.symm) hcomma⟩

section Parts

variable {expr : Rule Id Node} {closing : Option Char}

theorem more_of_stops (h : Stops closing q) (count : Nat) :
    more expr closing count q = .ok [] q := by
  cases count with
  | zero => rfl
  | succ count =>
    rw [more, bind_of_ok ahead_eq]
    split
    next hcomma =>
      obtain ⟨t, ht⟩ := List.head?_eq_some_iff.mp hcomma
      have hm : Spans q [','] ⟨q.offset + 1, t⟩ := ⟨ht, rfl⟩
      rw [bind_of_ok here_eq, bind_of_ok (next_eq_ok.mpr hm), bind_of_ok blanks_eq,
        bind_of_ok ahead_eq, if_pos (h.2 _ hm)]
      rfl
    next => rfl

theorem moreEntries_of_head {c : Char} (h : q.rest.head? = some c) (hcomma : c ≠ ',')
    (count : Nat) : moreEntries expr count q = .ok [] q := by
  cases count with
  | zero => rfl
  | succ count =>
    have hno : ¬ q.rest.head? = some ',' := fun h' => hcomma (by simpa [h] using h')
    rw [moreEntries, bind_of_ok ahead_eq, if_neg hno]
    rfl

variable {bound : Nat} (hexpr : Complete expr bound)
include hexpr

/-- The rule may start behind the blanks. -/
theorem Complete.skipBlanks {w : List Char} {x : Node} (hw : Expr w x) (h : Spans p w q)
    (hq : Follows q.rest) (hp : p.rest.length ≤ bound) : expr p.skipBlanks = .ok x q := by
  obtain ⟨v, hv, hspan, -⟩ := expr_skipBlanks hw h
  exact hexpr hv hspan hq ((length_skipBlanks p).trans hp)

/-- After a comma, an element is read, and then the rest of them. -/
theorem more_of_expr (hclosing : ∀ c ∈ closing, isStop c = true) {w : List Char} {x : Node}
    {xs : List Node} {a b : Point} {count : Nat} (ha : Spans p [','] a) (hw : Expr w x)
    (hb : Spans a w b) (hfollows : Follows b.rest) (hp : a.rest.length ≤ bound)
    (hmore : more expr closing count b = .ok xs q) :
    more expr closing (count + 1) p = .ok (x :: xs) q := by
  obtain ⟨-, -, -, c, hhead, hc⟩ := expr_skipBlanks hw hb
  have hno : ¬ (closing.isSome ∧ a.skipBlanks.rest.head? = closing) := by
    rintro ⟨-, hclose⟩
    have hstop := hclosing c (hclose ▸ hhead)
    rw [hc.2] at hstop
    cases hstop
  rw [more, bind_of_ok ahead_eq, if_pos ha.head, bind_of_ok here_eq,
    bind_of_ok (next_eq_ok.mpr ha), bind_of_ok blanks_eq, bind_of_ok ahead_eq, if_neg hno,
    bind_of_ok (hexpr.skipBlanks hw hb hfollows hp), bind_of_ok hmore]
  rfl

/-- **The elements after the first are read up to where none comes.** -/
theorem more_of_exprs (hclosing : ∀ c ∈ closing, isStop c = true) (hq : Stops closing q) :
    ∀ {v : List Char} {xs : List Node} {p : Point} {count : Nat}, Exprs v xs →
      Spans p (',' :: v) q → p.rest.length ≤ bound + 1 → p.rest.length ≤ count →
        more expr closing count p = .ok xs q := by
  intro v xs p count hv h hp hcount
  obtain ⟨a, ha, h⟩ := h.uncons
  have hlen := ha.length_rest
  simp only [List.length_singleton] at hlen
  obtain ⟨count, rfl⟩ : ∃ k, count = k + 1 := ⟨count - 1, by omega⟩
  match hv with
  | .one hx =>
    exact more_of_expr hexpr hclosing ha hx h hq.1 (by omega) (more_of_stops hq count)
  | .cons hx hxs =>
    obtain ⟨b, hb, h⟩ := h.split
    have hlen' := hb.length_rest
    refine more_of_expr hexpr hclosing ha hx hb (follows_of_head h.head rfl) (by omega) ?_
    exact more_of_exprs hclosing hq hxs h (by omega) (by omega)

theorem elements_of_exprs (hclosing : ∀ c ∈ closing, isStop c = true) (hq : Stops closing q)
    {v : List Char} {xs : List Node} (hv : Exprs v xs) (h : Spans p v q)
    (hp : p.rest.length ≤ bound) : elements expr closing p = .ok xs q := by
  cases hv with
  | one hx =>
    rw [elements, bind_of_ok (hexpr hx h hq.1 hp), bind_of_ok here_eq,
      bind_of_ok (more_of_stops hq _)]
    rfl
  | cons hx hxs =>
    obtain ⟨a, ha, h⟩ := h.split
    have hlen := ha.length_rest
    rw [elements, bind_of_ok (hexpr hx ha (follows_of_head h.head rfl) hp), bind_of_ok here_eq,
      bind_of_ok (more_of_exprs hexpr hclosing hq hxs h (by omega) le_rfl)]
    rfl

theorem entry_of_exprs {w v : List Char} {k x : Node} (hk : Expr w k) (hx : Expr v x)
    (h : Spans p (w ++ ':' :: v) q) (hq : Follows q.rest) (hp : p.rest.length ≤ bound) :
    entry expr p = .ok (k, x) q := by
  obtain ⟨a, ha, h⟩ := h.split
  obtain ⟨b, hb, h⟩ := h.uncons
  have hlen := ha.length_rest
  have hlen' := hb.length_rest
  rw [entry, bind_of_ok (hexpr hk ha (follows_of_head hb.head rfl) hp), bind_of_ok ahead_eq,
    if_pos hb.head, bind_of_ok (next_eq_ok.mpr hb),
    bind_of_ok (hexpr hx h hq (by omega))]
  rfl

omit hexpr in
/-- After a comma, an entry is read, and then the rest of them. -/
theorem moreEntries_of_entry {e : Node × Node} {es : List (Node × Node)} {a b : Point}
    {count : Nat} (ha : Spans p [','] a) (he : entry expr a = .ok e b)
    (hmore : moreEntries expr count b = .ok es q) :
    moreEntries expr (count + 1) p = .ok (e :: es) q := by
  rw [moreEntries, bind_of_ok ahead_eq, if_pos ha.head, bind_of_ok (next_eq_ok.mpr ha),
    bind_of_ok he, bind_of_ok hmore]
  rfl

/-- **The entries after the first are read up to the closing brace.** -/
theorem moreEntries_of_entries (hq : q.rest.head? = some '}') :
    ∀ {v : List Char} {es : List (Node × Node)} {p : Point} {count : Nat}, Entries v es →
      Spans p (',' :: v) q → p.rest.length ≤ bound + 1 → p.rest.length ≤ count →
        moreEntries expr count p = .ok es q := by
  intro v es p count hv h hp hcount
  obtain ⟨a, ha, h⟩ := h.uncons
  have hlen := ha.length_rest
  simp only [List.length_singleton] at hlen
  obtain ⟨count, rfl⟩ : ∃ k, count = k + 1 := ⟨count - 1, by omega⟩
  match hv with
  | .one hk hx =>
    exact moreEntries_of_entry ha
      (entry_of_exprs hexpr hk hx h (follows_of_head hq rfl) (by omega))
      (moreEntries_of_head hq (by decide) count)
  | .cons (w := w) (v := u) (t := t) hk hx hes =>
    obtain ⟨b, hb, h⟩ := (show Spans a ((w ++ ':' :: u) ++ ',' :: t) q by simpa using h).split
    have hlen' := hb.length_rest
    exact moreEntries_of_entry ha
      (entry_of_exprs hexpr hk hx hb (follows_of_head h.head rfl) (by omega))
      (moreEntries_of_entries hq hes h (by omega) (by omega))

end Parts

/-! ## 6. Compounds -/

/-- Behind blanks comes the closing bracket. -/
theorem head_skipBlanks_of_blank {u : List Char} {c : Char} (hu : Blank u)
    (hc : Text.isBlank c = false) (h : Spans p (u ++ [c]) q) :
    ∃ a, p.skipBlanks = a ∧ Spans a [c] q := by
  obtain ⟨a, hua, ha⟩ := h.split
  refine ⟨a, skipBlanks_eq hua hu fun d hd => ?_, ha⟩
  obtain rfl : c = d := by simpa [ha.head] using hd
  exact hc

/-- What starts an expression closes no bracket. -/
theorem ne_of_begins {c d : Char} (hc : Begins c) (hd : isStop d = true) : c ≠ d := by
  rintro rfl
  rw [hc.2] at hd
  cases hd

section Opened

variable {c d : Char} {x : Node} {inside : Rule Id Node}

/-- Nothing but blanks inside a list, a dictionary or a tuple. -/
theorem opened_of_blank {u : List Char} (hu : Blank u) (hd : Text.isBlank d = false)
    (h : Spans p (c :: (u ++ [d])) q) :
    (do
      let _ ← next
      blanks
      if (← peek) = d then
        let _ ← next
        pure x
      else inside : Rule Id Node) p = .ok x q := by
  obtain ⟨a, ha, h⟩ := h.uncons
  obtain ⟨b, hb, h⟩ := head_skipBlanks_of_blank hu hd h
  rw [bind_of_ok (next_eq_ok.mpr ha), bind_of_ok blanks_eq, hb, bind_of_ok (peek_of_head h.head),
    if_pos rfl, bind_of_ok (next_eq_ok.mpr h)]
  rfl

/-- An expression inside a list, a dictionary or a tuple. -/
theorem opened_of_begins {a : Point} {e : Char} (ha : Spans p [c] a)
    (hhead : e ∈ a.skipBlanks.rest.head?) (he : Begins e) (hd : isStop d = true) :
    (do
      let _ ← next
      blanks
      if (← peek) = d then
        let _ ← next
        pure x
      else inside : Rule Id Node) p = inside a.skipBlanks := by
  rw [bind_of_ok (next_eq_ok.mpr ha), bind_of_ok blanks_eq, bind_of_ok (peek_of_head hhead),
    if_neg (ne_of_begins he hd)]

end Opened

/-- A closing bracket closes, whether or not a comma may come before it. -/
theorem close_of_spans {c : Char} (hc : isStop c = true) (hcomma : c ≠ ',') (trailing : Bool)
    (h : Spans p [c] q) : (close c trailing : Rule Id Unit) p = .ok () q :=
   (close_eq_ok hcomma (isBlank_of_isStop hc)).mpr (Or.inl h)

section Compounds

variable {expr : Rule Id Node} {bound : Nat} (hexpr : Complete expr bound)
include hexpr

theorem list_of_exprs {w : List Char} {xs : List Node} (hw : Exprs w xs)
    (h : Spans p ('[' :: (w ++ [']'])) q) (hp : p.rest.length ≤ bound + 1) :
    list expr p = .ok (.list xs) q := by
  obtain ⟨a, ha, h⟩ := h.uncons
  obtain ⟨b, hb, hclose⟩ := h.split
  obtain ⟨v, hv, hspan, c, hhead, hc⟩ := exprs_skipBlanks hw hb
  have hlen := ha.length_rest
  simp only [List.length_singleton] at hlen
  have hbound : a.skipBlanks.rest.length ≤ bound := (length_skipBlanks a).trans (by omega)
  have hclosing : ∀ c ∈ (none : Option Char), isStop c = true := nofun
  refine (opened_of_begins ha hhead hc rfl).trans ?_
  rw [bind_of_ok (elements_of_exprs hexpr hclosing (stops_of_head hclose.head rfl (by decide)) hv
      hspan hbound),
    bind_of_ok (close_of_spans rfl (by decide) false hclose)]
  rfl

theorem set_of_exprs {w : List Char} {xs : List Node} (hw : Exprs w xs)
    (h : Spans p ('{' :: (w ++ ['}'])) q) (hp : p.rest.length ≤ bound + 1) :
    set expr p = .ok (.set xs) q := by
  obtain ⟨a, ha, h⟩ := h.uncons
  obtain ⟨b, hb, hclose⟩ := h.split
  have hlen := ha.length_rest
  simp only [List.length_singleton] at hlen
  have hclosing : ∀ c ∈ (none : Option Char), isStop c = true := nofun
  rw [set, bind_of_ok (next_eq_ok.mpr ha),
    bind_of_ok (elements_of_exprs hexpr hclosing (stops_of_head hclose.head rfl (by decide)) hw hb
      (by omega)),
    bind_of_ok (close_of_spans rfl (by decide) false hclose)]
  rfl

theorem dict_of_entries {w : List Char} {es : List (Node × Node)} (hw : Entries w es)
    (h : Spans p ('{' :: (w ++ ['}'])) q) (hp : p.rest.length ≤ bound + 1) :
    dict expr p = .ok (.dict es) q := by
  obtain ⟨a, ha, h⟩ := h.uncons
  obtain ⟨b, hb, hclose⟩ := h.split
  obtain ⟨v, hv, hspan, c, hhead, hc⟩ := entries_skipBlanks hw hb
  have hlen := ha.length_rest
  simp only [List.length_singleton] at hlen
  have hbound : a.skipBlanks.rest.length ≤ bound := (length_skipBlanks a).trans (by omega)
  have hend : (close '}' false : Rule Id Unit) b = .ok () q :=
    close_of_spans rfl (by decide) false hclose
  refine (opened_of_begins ha hhead hc rfl).trans ?_
  cases hv with
  | one hk hx =>
    rw [bind_of_ok (entry_of_exprs hexpr hk hx hspan (follows_of_head hclose.head rfl) hbound),
      bind_of_ok here_eq, bind_of_ok (moreEntries_of_head hclose.head (by decide) _),
      bind_of_ok hend]
    rfl
  | @cons w u t _ _ _ hk hx hes =>
    obtain ⟨d, hd, htail⟩ :=
      (show Spans a.skipBlanks ((w ++ ':' :: u) ++ ',' :: t) b by simpa using hspan).split
    have hlen' := hd.length_rest
    rw [bind_of_ok (entry_of_exprs hexpr hk hx hd (follows_of_head htail.head rfl) hbound),
      bind_of_ok here_eq,
      bind_of_ok (moreEntries_of_entries hexpr hclose.head hes htail (by omega) le_rfl),
      bind_of_ok hend]
    rfl

theorem tuple_of_singleton {w u : List Char} {x : Node} (hw : Expr w x) (hu : Blank u)
    (h : Spans p ('(' :: (w ++ ',' :: (u ++ [')']))) q) (hp : p.rest.length ≤ bound + 1) :
    tuple expr p = .ok (.tuple [x]) q := by
  obtain ⟨a, ha, h⟩ := h.uncons
  obtain ⟨b, hb, h⟩ := h.split
  obtain ⟨d, hd, h⟩ := h.uncons
  obtain ⟨e, he, hclose⟩ := head_skipBlanks_of_blank hu (by decide) h
  obtain ⟨-, -, -, c, hhead, hc⟩ := expr_skipBlanks hw hb
  have hlen := ha.length_rest
  simp only [List.length_singleton] at hlen
  have hx := hexpr.skipBlanks hw hb (follows_of_head hd.head rfl) (by omega)
  refine (opened_of_begins ha hhead hc rfl).trans ?_
  rw [bind_of_ok hx, bind_of_ok ahead_eq, hd.head]
  refine (bind_of_ok (next_eq_ok.mpr hd)).trans ?_
  rw [bind_of_ok blanks_eq, he, bind_of_ok ahead_eq, if_pos hclose.head,
    bind_of_ok (next_eq_ok.mpr hclose)]
  rfl

theorem tuple_of_exprs {w v : List Char} {x : Node} {xs : List Node} {m : Point} (hw : Expr w x)
    (hv : Exprs v xs) (h : Spans p ('(' :: (w ++ ',' :: v)) m) (hm : Stops (some ')') m)
    (hclose : (close ')' true : Rule Id Unit) m = .ok () q) (hp : p.rest.length ≤ bound + 1) :
    tuple expr p = .ok (.tuple (x :: xs)) q := by
  obtain ⟨a, ha, h⟩ := h.uncons
  obtain ⟨b, hb, h⟩ := h.split
  obtain ⟨d, hd, h⟩ := h.uncons
  obtain ⟨-, -, -, c, hhead, hc⟩ := expr_skipBlanks hw hb
  obtain ⟨v', hv', hspan, c', hhead', hc'⟩ := exprs_skipBlanks hv h
  have hlen := ha.length_rest
  have hlen' := hb.length_rest
  have hlen'' := hd.length_rest
  simp only [List.length_singleton] at hlen hlen''
  have hx := hexpr.skipBlanks hw hb (follows_of_head hd.head rfl) (by omega)
  have hno : ¬ d.skipBlanks.rest.head? = some ')' := fun h' =>
    ne_of_begins hc' (d := ')') rfl (Option.some.inj ((Option.mem_def.mp hhead').symm.trans h'))
  have hclosing : ∀ c ∈ some ')', isStop c = true := by
    rintro _ ⟨⟩
    rfl
  have hbound : d.skipBlanks.rest.length ≤ bound := (length_skipBlanks d).trans (by omega)
  refine (opened_of_begins ha hhead hc rfl).trans ?_
  rw [bind_of_ok hx, bind_of_ok ahead_eq, hd.head]
  refine (bind_of_ok (next_eq_ok.mpr hd)).trans ?_
  rw [bind_of_ok blanks_eq, bind_of_ok ahead_eq, if_neg hno,
    bind_of_ok (elements_of_exprs hexpr hclosing hm hv' hspan hbound), bind_of_ok hclose]
  rfl

end Compounds

/-! ## 7. First characters in common -/

/-- What starts like a number is a number, with at most its mark behind it. -/
theorem eq_number_of_head {w : List Char} {x : Node} (hw : Item w x) {c : Char}
    (hc : w.head? = some c) (hfloat : isFloatChar c = true) :
    ∃ s t, w = s ++ t ∧ (∀ d ∈ s, isFloatChar d = true) ∧ (t = [] ∨ t = ['j']) := by
  have hother : ∀ {d : Char} {v : List Char}, isFloatChar d = false →
      (d :: v).head? = some c → ∃ s t, w = s ++ t ∧ (∀ d ∈ s, isFloatChar d = true) ∧
        (t = [] ∨ t = ['j']) := by
    intro d v hd hhead
    obtain rfl : d = c := by simpa using hhead
    rw [hd] at hfloat
    cases hfloat
  cases hw with
  | string hquote _ => rcases hquote with rfl | rfl <;> exact hother rfl hc
  | @integer minus ds hds =>
    refine ⟨_, [], (List.append_nil _).symm, ?_, Or.inl rfl⟩
    rw [← integerNumeral_text]
    exact Numeral.isFloatChar_of_mem_text (integerNumeral_wellFormed hds)
  | float hx _ _ =>
    exact ⟨_, [], (List.append_nil _).symm, Numeral.isFloatChar_of_mem_text hx, Or.inl rfl⟩
  | imaginary hx => exact ⟨_, _, rfl, Numeral.isFloatChar_of_mem_text hx, Or.inr rfl⟩
  | _ => exact hother rfl hc

/-- After a parenthesis that a complex number needs come the characters of its two numbers. -/
theorem exists_run_of_complex {y : Node} {m a : Point} (hp : Spans p ['('] a)
    (h : complex p = .ok y m) : ∃ (s : List Char) (c : Char) (b : Point),
      Spans a s b ∧ (∀ d ∈ s, isFloatChar d = true) ∧ s.head? = some c ∧ isFloatChar c = true ∧
        Spans b ['j', ')'] m := by
  rcases complex_eq_ok.mp h with ⟨x, hx, hspan, -⟩ | ⟨x, z, hx, hz, -, hspan, -⟩
  · obtain ⟨c, hc, hhead⟩ := head_numeral hx hspan
    obtain rfl : '(' = c := by simpa [hp.head] using hhead
    exact absurd hc (by decide)
  · obtain ⟨a', ha', hspan⟩ := hspan.uncons
    obtain rfl := hp.right_unique ha'
    obtain ⟨b, hb, hmark⟩ :=
      (show Spans a ((x.text ++ z.text) ++ ['j', ')']) m by simpa using hspan).split
    obtain ⟨c, t, ht, -⟩ := Numeral.exists_head hx
    refine ⟨_, c, b, hb, fun d hd => ?_, by rw [ht]; rfl, ?_, hmark⟩
    · exact (List.mem_append.mp hd).elim (Numeral.isFloatChar_of_mem_text hx d)
        (Numeral.isFloatChar_of_mem_text hz d)
    · exact Numeral.isFloatChar_of_mem_text hx c (by simp [ht])

theorem complex_ne_ok_of_blank {u : List Char} (hu : Blank u)
    (h : Spans p ('(' :: (u ++ [')'])) q) (y : Node) (m : Point) : complex p ≠ .ok y m := by
  intro hok
  obtain ⟨a, ha, h⟩ := h.uncons
  obtain ⟨s, c, b, hs, -, hc, hfloat, -⟩ := exists_run_of_complex ha hok
  have hhead : a.rest.head? = some c := by simp [hs.rest, hc]
  have hafter : AfterItem a.rest := by
    rw [h.rest, List.append_assoc]
    exact afterItem_append hu (Follows.cons rfl _)
  exact hafter.not_begins hhead (begins_of_isFloatChar hfloat)

/-- An expression that does not start with a blank starts with its literal. -/
theorem item_of_expr_of_head {w s : List Char} {x : Node} (hw : Expr w x) {c : Char}
    (hc : (w ++ s).head? = some c) (hbegins : Begins c) :
    ∃ i v, Item i x ∧ Blank v ∧ w = i ++ v := by
  cases hw with
  | @blanks u i v x hu hi hv =>
    cases u with
    | nil => exact ⟨i, v, hi, hv, rfl⟩
    | cons d t =>
      obtain rfl : d = c := by simpa using hc
      have hblank := hu d List.mem_cons_self
      rw [hbegins.1] at hblank
      cases hblank

/-- **An expression and a comma after a parenthesis are not the start of a complex number.** -/
theorem complex_ne_ok_of_expr {w v : List Char} {x : Node} (hw : Expr w x)
    (h : Spans p ('(' :: (w ++ ',' :: v)) q) (y : Node) (m : Point) : complex p ≠ .ok y m := by
  intro hok
  obtain ⟨a, ha, h⟩ := h.uncons
  obtain ⟨s, c, b, hs, hchars, hc, hfloat, hmark⟩ := exists_run_of_complex ha hok
  have hhead : a.rest.head? = some c := by simp [hs.rest, hc]
  have hrun : a.span isFloatChar = (s, b) := span_eq hs hchars fun d hd => by
    obtain rfl : 'j' = d := by simpa [hmark.head] using hd
    rfl
  have hwhead : (w ++ [',']).head? = some c := by
    rw [← hhead, h.rest]
    cases w <;> rfl
  obtain ⟨i, v', hi, hv', rfl⟩ := item_of_expr_of_head hw hwhead (begins_of_isFloatChar hfloat)
  obtain ⟨d, t, ht, -⟩ := hi.exists_head
  obtain rfl : d = c := by simpa [h.rest, ht] using hhead
  obtain ⟨s', mark, rfl, hchars', hmark'⟩ := eq_number_of_head hi (by rw [ht]; rfl) hfloat
  obtain ⟨k, hk, h⟩ :=
    (show Spans a (s' ++ (mark ++ (v' ++ ',' :: v))) q by simpa using h).split
  obtain ⟨g, hg, h⟩ := h.split
  have hnext : ∀ d ∈ g.rest.head?, Text.isBlank d = true ∨ d = ',' := by
    intro d hd
    cases v' with
    | nil => exact Or.inr (by simpa [h.head] using hd.symm)
    | cons e r =>
      obtain rfl : e = d := by simpa [h.head] using hd
      exact Or.inl (hv' e List.mem_cons_self)
  -- Both runs go as far as numbers do, so they are the same run.
  have hkb : k = b := by
    have hend : ∀ d ∈ k.rest.head?, isFloatChar d = false := by
      rcases hmark' with rfl | rfl
      · obtain rfl := hg.eq_of_nil
        have hafter : AfterItem k.rest := fun d hd =>
          (hnext d hd).imp id fun hcomma => by rw [hcomma]; rfl
        exact hafter.noFloatChar
      · intro d hd
        obtain rfl : 'j' = d := by simpa [hg.head] using hd
        rfl
    rw [span_eq hk hchars' hend] at hrun
    exact congrArg Prod.snd hrun
  subst hkb
  rcases hmark' with rfl | rfl
  · obtain rfl := hg.eq_of_nil
    rcases hnext 'j' hmark.head with h | h <;> exact absurd h (by decide)
  · obtain ⟨g', hg', hclose⟩ := hmark.uncons
    obtain rfl := hg.right_unique hg'
    rcases hnext ')' hclose.head with h | h <;> exact absurd h (by decide)

/-- Nothing between braces is not a set. -/
theorem set_ne_ok_of_blank {expr : Rule Id Node} (hexpr : Sound expr) {u : List Char}
    (hu : Blank u) (h : Spans p ('{' :: (u ++ ['}'])) q) (y : Node) (m : Point) :
    set expr p ≠ .ok y m := by
  intro hok
  obtain ⟨a, ha, h⟩ := h.uncons
  obtain ⟨b, hb, h⟩ := head_skipBlanks_of_blank hu (by decide) h
  rw [set, bind_of_ok (next_eq_ok.mpr ha), elements] at hok
  obtain ⟨xs, d, hxs, -⟩ := bind_eq_ok.mp hok
  obtain ⟨x, e, hx, -⟩ := bind_eq_ok.mp hxs
  obtain ⟨w, hw, hspan⟩ := hexpr hx
  obtain ⟨-, -, -, c, hc, hbegins⟩ := expr_skipBlanks hw hspan
  rw [hb, h.head] at hc
  obtain rfl : '}' = c := by simpa using hc
  exact absurd hbegins (by decide)

/-- **A key is not the element of a set**, for no colon may follow one. -/
theorem set_ne_ok_of_key {expr : Rule Id Node} {bound : Nat} (hexpr : Complete expr bound)
    {w v : List Char} {k : Node} (hk : Expr w k) (h : Spans p ('{' :: (w ++ ':' :: v)) q)
    (hp : p.rest.length ≤ bound + 1) (y : Node) (m : Point) : set expr p ≠ .ok y m := by
  intro hok
  obtain ⟨a, ha, h⟩ := h.uncons
  obtain ⟨b, hb, hcolon⟩ := h.split
  have hlen := ha.length_rest
  simp only [List.length_singleton] at hlen
  rw [set, bind_of_ok (next_eq_ok.mpr ha), elements] at hok
  obtain ⟨xs, d, hxs, hok⟩ := bind_eq_ok.mp hok
  rw [bind_of_ok (hexpr hk hb (follows_of_head hcolon.head rfl) (by omega)), bind_of_ok here_eq,
    bind_of_ok (more_of_stops (stops_of_head hcolon.head rfl (by decide)) _)] at hxs
  obtain ⟨rfl, rfl⟩ := pure_eq_ok.mp hxs
  obtain ⟨_, e, hclose, -⟩ := bind_eq_ok.mp hok
  rcases (close_eq_ok (by decide) (by decide)).mp hclose with hclose | ⟨hfalse, -⟩
  · exact absurd (hclose.head.symm.trans hcolon.head) (by decide)
  · cases hfalse

/-! ## 8. Expressions -/

section Dispatch

variable {expr : Rule Id Node} {v : List Char}

theorem bracketed_of_list (h : Spans p ('[' :: v) q) :
    bracketed Strategy.plain.note expr p = list expr p := by
  rw [bracketed, bind_of_ok (peek_of_head h.head), if_pos rfl]

theorem bracketed_of_brace (h : Spans p ('{' :: v) q) :
    bracketed Strategy.plain.note expr p =
      attempt Strategy.plain.note .set (set expr) (dict expr) p := by
  rw [bracketed, bind_of_ok (peek_of_head h.head), if_neg (by decide), if_pos rfl]

theorem bracketed_of_paren (h : Spans p ('(' :: v) q) :
    bracketed Strategy.plain.note expr p =
      attempt Strategy.plain.note .complex complex (tuple expr) p := by
  rw [bracketed, bind_of_ok (peek_of_head h.head), if_neg (by decide), if_neg (by decide)]
  rfl

end Dispatch

/-- **A compound is read with its tree**, where the expressions inside are. -/
theorem bracketed_of_item {expr : Rule Id Node} {bound : Nat} (hsound : Sound expr)
    (hfinal : NeverFinal expr) (hexpr : Complete expr bound) {w : List Char} {c : Char}
    (hw : Item w n) (h : Spans p w q) (hc : p.rest.head? = some c) (hopen : isOpening c = true)
    (hp : p.rest.length ≤ bound + 1) : bracketed Strategy.plain.note expr p = .ok n q := by
  have hsingle : ∀ {d : Char} {v : List Char}, Spans p (d :: v) q → isOpening d = false →
      bracketed Strategy.plain.note expr p = .ok n q := by
    intro d v hspan hd
    obtain rfl : d = c := by simpa [hspan.head] using hc
    rw [hd] at hopen
    cases hopen
  have hnumber : ∀ {d : Char}, d ∈ numberStarts → p.rest.head? = some d →
      bracketed Strategy.plain.note expr p = .ok n q := by
    intro d hd hhead
    obtain rfl : d = c := by simpa [hhead] using hc
    have hall : ∀ d ∈ numberStarts, isOpening d = false := forall_numberStart (by decide)
    rw [hall d hd] at hopen
    cases hopen
  cases hw with
  | emptyList hu =>
    rw [bracketed_of_list h]
    exact opened_of_blank hu rfl h
  | list hxs => rw [bracketed_of_list h, list_of_exprs hexpr hxs h hp]
  | set hxs =>
    rw [bracketed_of_brace h]
    exact attempt_of_ok (set_of_exprs hexpr hxs h hp)
  | emptyDict hu =>
    rw [bracketed_of_brace h,
      attempt_of_not_ok (neverFinal_set hfinal) (set_ne_ok_of_blank hsound hu h)]
    exact opened_of_blank hu rfl h
  | dict hes =>
    obtain ⟨u, v, k, hk, hspan⟩ : ∃ u v k, Expr u k ∧ Spans p ('{' :: (u ++ ':' :: v)) q := by
      cases hes with
      | one hk _ => exact ⟨_, _, _, hk, by simpa using h⟩
      | cons hk _ _ => exact ⟨_, _, _, hk, by simpa using h⟩
    rw [bracketed_of_brace h,
      attempt_of_not_ok (neverFinal_set hfinal) (set_ne_ok_of_key hexpr hk hspan hp)]
    exact dict_of_entries hexpr hes h hp
  | emptyTuple hu =>
    rw [bracketed_of_paren h,
      attempt_of_not_ok neverFinal_complex (complex_ne_ok_of_blank hu h)]
    exact opened_of_blank hu rfl h
  | singleton hx hu =>
    rw [bracketed_of_paren h,
      attempt_of_not_ok neverFinal_complex (complex_ne_ok_of_expr hx h)]
    exact tuple_of_singleton hexpr hx hu h hp
  | @tuple w v x xs hx hxs =>
    rw [bracketed_of_paren h,
      attempt_of_not_ok neverFinal_complex (complex_ne_ok_of_expr hx h)]
    obtain ⟨m, hm, hclose⟩ :=
      (show Spans p (('(' :: (w ++ ',' :: v)) ++ [')']) q by simpa using h).split
    exact tuple_of_exprs hexpr hx hxs hm (stops_of_head hclose.head rfl (by decide))
      (close_of_spans rfl (by decide) true hclose) hp
  | @tupleComma w v u x xs hx hxs hu =>
    rw [bracketed_of_paren h,
      attempt_of_not_ok neverFinal_complex (complex_ne_ok_of_expr hx h)]
    obtain ⟨m, hm, hclose⟩ :=
      (show Spans p (('(' :: (w ++ ',' :: v)) ++ (',' :: (u ++ [')']))) q by simpa using h).split
    refine tuple_of_exprs hexpr hx hxs hm ⟨follows_of_head hclose.head rfl, fun k hk => ?_⟩
      ((close_eq_ok (by decide) (by decide)).mpr (Or.inr ⟨rfl, u, hu, hclose⟩)) hp
    obtain ⟨k', hk', hclose⟩ := hclose.uncons
    obtain rfl := hk.right_unique hk'
    obtain ⟨b, hb, hclose⟩ := head_skipBlanks_of_blank hu (by decide) hclose
    exact ⟨rfl, by rw [hb, hclose.head]⟩
  | complex hx hy hjoin =>
    rw [bracketed_of_paren h]
    exact attempt_of_ok (complex_eq_ok.mpr (Or.inr ⟨_, _, hx, hy, hjoin, h, rfl⟩))
  | @integer minus ds hds =>
    have hnumeral : Spans p (integerNumeral minus ds).text q := by rwa [integerNumeral_text]
    obtain ⟨d, hd, hhead⟩ := head_numeral (integerNumeral_wellFormed hds) (s := [])
      (by simpa using hnumeral)
    exact hnumber hd hhead
  | float hx _ _ =>
    obtain ⟨d, hd, hhead⟩ := head_numeral hx (s := []) (by simpa using h)
    exact hnumber hd hhead
  | imaginary hx =>
    obtain ⟨d, hd, hhead⟩ := head_numeral hx h
    exact hnumber hd hhead
  | string hquote _ => rcases hquote with rfl | rfl <;> exact hsingle h rfl
  | noneLiteral => exact hsingle h rfl
  | trueLiteral => exact hsingle h rfl
  | falseLiteral => exact hsingle h rfl

/-- **Every expression is read with its tree**, up to where its last blank ends. -/
theorem complete_expression (count depth : Nat) :
    Complete (Strategy.plain.expression none count depth) count := by
  induction count generalizing depth with
  | zero =>
    intro w x p q hw h _ hp
    obtain ⟨-, -, -, c, hc, -⟩ := expr_skipBlanks hw h
    have hlen := length_skipBlanks p
    have hnil : p.skipBlanks.rest = [] := List.eq_nil_of_length_eq_zero (by omega)
    simp [hnil] at hc
  | succ count ih =>
    intro w x p q hw h hq hp
    cases hw with
    | @blanks u i v x hu hi hv =>
      obtain ⟨a, hua, h⟩ := h.split
      obtain ⟨b, hib, hvb⟩ := h.split
      obtain ⟨c, t, ht, hc⟩ := hi.exists_head
      have hhead : a.rest.head? = some c := by simp [hib.rest, ht]
      have hskip : p.skipBlanks = a := skipBlanks_eq hua hu fun d hd => by
        obtain rfl : c = d := by simpa [hhead] using hd
        exact hc.1
      have hend : b.skipBlanks = q :=
        skipBlanks_eq hvb hv fun d hd => isBlank_of_isStop (hq d hd)
      have hlen := hua.length_rest
      have hfinish : (do Rule.blanks; pure x : Rule Id Node) b = .ok x q := by
        rw [bind_of_ok blanks_eq, hend]
        rfl
      rw [Strategy.expression, bind_of_ok blanks_eq, hskip, bind_of_ok (peek_of_head hhead)]
      cases hopen : isOpening c with
      | true =>
        have hx := bracketed_of_item (sound_expression none count (depth + 1))
          (neverFinal_expression count (depth + 1)) (ih (depth + 1)) hi hib hhead hopen (by omega)
        exact (bind_of_ok hx).trans hfinish
      | false =>
        have hafter : AfterItem b.rest := hvb.rest ▸ afterItem_append hv hq
        exact (bind_of_ok (single_of_item hi hib hhead hopen hafter)).trans hfinish

end Literals.Reader
