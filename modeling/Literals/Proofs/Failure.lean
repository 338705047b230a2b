/-
# Without a limit no failure is final

Only too deep a nesting ends the reading at once, and only `enter` reports it.  So where no limit
is set, **an alternative that does not succeed is always followed by the next one**
(`attempt_of_not_ok`), whatever made it fail: the later statements about alternatives only have to
say that the earlier ones do not succeed.
-/
import Literals.Proofs.Rule

namespace Literals.Reader

open Rule

/-- No failure of the rule ends the reading. -/
def NeverFinal {α : Type} (r : Rule Id α) : Prop :=
  ∀ ⦃p q : Point⦄ ⦃c : Cause⦄, r p = .failed c q → c.isFinal = false

/-- **After a rule that never fails finally, not succeeding is enough for the second one.** -/
theorem attempt_of_not_ok {note : Retry → Id Unit} {trial : Trial} {first second : Rule Id Node}
    {p : Point} (hfirst : NeverFinal first) (h : ∀ x q, first p ≠ .ok x q) :
    attempt note trial first second p = second p := by
  cases hp : first p with
  | ok x q => exact absurd hp (h x q)
  | failed c q => exact attempt_of_failed hp (hfirst hp)

/-! ## 1. Sequences and single characters -/

section Rules

variable {α β : Type} {r : Rule Id α} {k : α → Rule Id β}

/-- A rule that always succeeds never fails finally, as it never fails. -/
theorem neverFinal_of_total (h : ∀ p, ∃ a q, r p = .ok a q) : NeverFinal r := by
  intro p q c hc
  obtain ⟨a, m, ha⟩ := h p
  exact nomatch ha.symm.trans hc

theorem neverFinal_pure (a : α) : NeverFinal (pure a) :=
  neverFinal_of_total fun p => ⟨a, p, rfl⟩

/-- A failure whose cause is not the limit is not final. -/
theorem neverFinal_fail {c : Cause} (hc : c.isFinal = false) : NeverFinal (fail c : Rule Id α) := by
  intro p q d hd
  obtain ⟨rfl, -⟩ := Outcome.failed.inj hd
  exact hc

/-- A sequence fails finally only where one of its parts does. -/
theorem NeverFinal.bind (hr : NeverFinal r) (hk : ∀ a, NeverFinal (k a)) :
    NeverFinal (r >>= k) := by
  intro p q c hc
  cases hp : r p with
  | ok a m =>
    rw [bind_of_ok hp] at hc
    exact hk a hc
  | failed d m =>
    rw [bind_of_failed hp] at hc
    obtain ⟨rfl, -⟩ := Outcome.failed.inj hc
    exact hr hp

/-- So does a choice that is made by a test. -/
theorem NeverFinal.ite {t : Prop} [Decidable t] {s : Rule Id α} (hr : NeverFinal r)
    (hs : NeverFinal s) : NeverFinal (if t then r else s) := by
  split
  · exact hr
  · exact hs

theorem neverFinal_ahead : NeverFinal ahead :=
  neverFinal_of_total fun p => ⟨_, p, rfl⟩

theorem neverFinal_here : NeverFinal here :=
  neverFinal_of_total fun p => ⟨p, p, rfl⟩

theorem neverFinal_goTo (q : Point) : NeverFinal (goTo q) :=
  neverFinal_of_total fun _ => ⟨(), q, rfl⟩

theorem neverFinal_blanks : NeverFinal blanks :=
  neverFinal_of_total fun p => ⟨(), p.skipBlanks, rfl⟩

theorem neverFinal_takeWhile (f : Char → Bool) : NeverFinal (takeWhile f) :=
  neverFinal_of_total fun _ => ⟨_, _, rfl⟩

/-- To read a character fails at the end of the text only, and not finally. -/
theorem neverFinal_next : NeverFinal next := by
  rintro ⟨o, s⟩ q c hc
  cases s with
  | nil =>
    obtain ⟨rfl, -⟩ := Outcome.failed.inj hc
    rfl
  | cons d t => exact nomatch hc

theorem neverFinal_peek : NeverFinal peek := by
  rintro ⟨o, s⟩ q c hc
  cases s with
  | nil =>
    obtain ⟨rfl, -⟩ := Outcome.failed.inj hc
    rfl
  | cons d t => exact nomatch hc

theorem neverFinal_oneOf (f : Char → Bool) : NeverFinal (oneOf f) := by
  refine neverFinal_of_total fun p => ?_
  cases hp : p.rest with
  | nil => exact ⟨[], p, oneOf_of_not_head (by simp [hp])⟩
  | cons c t =>
    cases hc : f c with
    | true => exact ⟨[c], _, oneOf_of_head (q := ⟨p.offset + 1, t⟩) ⟨hp, rfl⟩ hc⟩
    | false => exact ⟨[], p, oneOf_of_not_head (by simp [hp, hc])⟩

/-- The test for a word does not fail at all; it says what it found. -/
theorem neverFinal_word (w : List Char) : NeverFinal (word w) := by
  refine neverFinal_of_total fun p => ?_
  cases hw : w.isPrefixOf p.rest with
  | true =>
    obtain ⟨t, ht⟩ := List.isPrefixOf_iff_prefix.mp hw
    exact ⟨true, _, word_of_spans (q := ⟨p.offset + w.length, t⟩) ⟨ht.symm, rfl⟩⟩
  | false => exact ⟨false, p, word_of_not_isPrefix hw⟩

/-- A mark that must come next is missed with the cause that it is given. -/
theorem neverFinal_mark (c : Char) {e : Cause} (he : e.isFinal = false) :
    NeverFinal (mark c e) := by
  refine neverFinal_ahead.bind fun a => ?_
  cases a with
  | none => exact neverFinal_fail he
  | some d => exact neverFinal_next.bind fun _ => (neverFinal_pure _).ite (neverFinal_fail he)

end Rules

/-! ## 2. Leaves -/

theorem neverFinal_integer : NeverFinal integer := by
  refine (neverFinal_takeWhile _).bind fun s => (neverFinal_fail rfl).ite ?_
  cases integer? s with
  | some x => exact neverFinal_pure _
  | none => exact neverFinal_fail rfl

theorem neverFinal_float : NeverFinal float := by
  refine (neverFinal_takeWhile _).bind fun s =>
    (neverFinal_fail rfl).ite ((neverFinal_fail rfl).ite ?_)
  cases Number.Numeral.read? s with
  | some x => exact (neverFinal_fail rfl).ite (neverFinal_pure _)
  | none => exact neverFinal_fail rfl

/-- A part of a complex number fails like any other alternative. -/
theorem neverFinal_part : NeverFinal part := by
  have htext : NeverFinal partText := by
    refine (neverFinal_oneOf _).bind fun _ => (neverFinal_takeWhile _).bind fun _ =>
      (neverFinal_oneOf _).bind fun _ => (neverFinal_pure _).ite ?_
    exact (neverFinal_oneOf _).bind fun _ => (neverFinal_takeWhile _).bind fun _ =>
      neverFinal_pure _
  refine htext.bind fun s => ?_
  cases Number.Numeral.read? s with
  | some x => exact neverFinal_pure _
  | none => exact neverFinal_fail rfl

theorem neverFinal_complex : NeverFinal complex := by
  have himaginary : NeverFinal imaginary :=
    neverFinal_part.bind fun _ => (neverFinal_mark _ rfl).bind fun _ => neverFinal_pure _
  refine neverFinal_peek.bind fun _ => NeverFinal.ite ?_ ?_
  · exact neverFinal_next.bind fun _ => neverFinal_part.bind fun _ => himaginary.bind fun _ =>
      (neverFinal_mark _ rfl).bind fun _ => neverFinal_pure _
  · exact himaginary.bind fun _ => neverFinal_pure _

/-- A string that is not closed, or ends behind a backslash, is no final failure: the induction is
on the recursion of its text. -/
theorem neverFinal_string : NeverFinal string := by
  refine neverFinal_next.bind fun quote => NeverFinal.bind ?_ fun _ => neverFinal_pure _
  rintro ⟨o, s⟩ q c hc
  replace hc : stringBody quote o s = .failed c q := hc
  fun_induction stringBody quote o s with
  | case1 => cases hc; rfl
  | case2 => cases hc
  | case3 => cases hc; rfl
  | case4 => cases hc
  | case5 o e rest cause stop heq _ ih => cases hc; exact ih heq
  | case6 => cases hc
  | case7 o c rest _ _ cause stop heq ih => cases hc; exact ih heq

theorem neverFinal_bool : NeverFinal bool :=
  (neverFinal_word _).bind fun _ => (neverFinal_pure _).ite
    ((neverFinal_word _).bind fun _ => (neverFinal_pure _).ite (neverFinal_fail rfl))

theorem neverFinal_noneLiteral : NeverFinal noneLiteral :=
  (neverFinal_word _).bind fun _ => (neverFinal_pure _).ite (neverFinal_fail rfl)

/-- Two alternatives fail as the second does, since the first one leads to it. -/
theorem neverFinal_attempt {trial : Trial} {first second : Rule Id Node}
    (hfirst : NeverFinal first) (hsecond : NeverFinal second) :
    NeverFinal (attempt Strategy.plain.note trial first second) := by
  intro p q c hc
  cases hp : first p with
  | ok x m => exact nomatch (attempt_of_ok hp).symm.trans hc
  | failed d m => exact hsecond ((attempt_of_failed hp (hfirst hp)).symm.trans hc)

/-- No literal without parts fails finally. -/
theorem neverFinal_single : NeverFinal (single Strategy.plain.note) :=
  neverFinal_peek.bind fun _ => neverFinal_noneLiteral.ite
    (neverFinal_bool.ite (neverFinal_string.ite
      (neverFinal_attempt neverFinal_complex
        (neverFinal_attempt neverFinal_float neverFinal_integer))))

/-! ## 3. Compounds -/

theorem neverFinal_close (c : Char) (trailing : Bool) : NeverFinal (close c trailing) := by
  refine neverFinal_ahead.bind fun a => ?_
  cases a with
  | none => exact neverFinal_fail rfl
  | some d =>
    refine neverFinal_next.bind fun _ => NeverFinal.ite (neverFinal_blanks.bind fun _ => ?_)
      ((neverFinal_pure _).ite (neverFinal_fail rfl))
    refine neverFinal_ahead.bind fun b => ?_
    cases b with
    | none => exact neverFinal_fail rfl
    | some e =>
      exact neverFinal_next.bind fun _ => (neverFinal_pure _).ite (neverFinal_fail rfl)

section Compounds

variable {expr : Rule Id Node} (hexpr : NeverFinal expr)
include hexpr

/-- The loop over the parts of a sequence fails only where an expression in it does. -/
theorem neverFinal_more (closing : Option Char) (count : Nat) :
    NeverFinal (more expr closing count) := by
  induction count with
  | zero => exact neverFinal_pure _
  | succ count ih =>
    refine neverFinal_ahead.bind fun _ => NeverFinal.ite ?_ (neverFinal_pure _)
    refine neverFinal_here.bind fun _ => neverFinal_next.bind fun _ =>
      neverFinal_blanks.bind fun _ => neverFinal_ahead.bind fun _ => NeverFinal.ite ?_ ?_
    · exact (neverFinal_goTo _).bind fun _ => neverFinal_pure _
    · exact hexpr.bind fun _ => ih.bind fun _ => neverFinal_pure _

theorem neverFinal_elements (closing : Option Char) : NeverFinal (elements expr closing) :=
  hexpr.bind fun _ => neverFinal_here.bind fun _ =>
    (neverFinal_more hexpr _ _).bind fun _ => neverFinal_pure _

theorem neverFinal_entry : NeverFinal (entry expr) :=
  hexpr.bind fun _ => neverFinal_ahead.bind fun _ =>
    NeverFinal.ite (neverFinal_next.bind fun _ => hexpr.bind fun _ => neverFinal_pure _)
      (neverFinal_fail rfl)

theorem neverFinal_moreEntries (count : Nat) : NeverFinal (moreEntries expr count) := by
  induction count with
  | zero => exact neverFinal_pure _
  | succ count ih =>
    refine neverFinal_ahead.bind fun _ => NeverFinal.ite ?_ (neverFinal_pure _)
    exact neverFinal_next.bind fun _ => (neverFinal_entry hexpr).bind fun _ =>
      ih.bind fun _ => neverFinal_pure _

theorem neverFinal_list : NeverFinal (list expr) := by
  refine neverFinal_next.bind fun _ => neverFinal_blanks.bind fun _ =>
    neverFinal_peek.bind fun _ => NeverFinal.ite ?_ ?_
  · exact neverFinal_next.bind fun _ => neverFinal_pure _
  · exact (neverFinal_elements hexpr _).bind fun _ =>
      (neverFinal_close _ _).bind fun _ => neverFinal_pure _

theorem neverFinal_set : NeverFinal (set expr) :=
  neverFinal_next.bind fun _ => (neverFinal_elements hexpr _).bind fun _ =>
    (neverFinal_close _ _).bind fun _ => neverFinal_pure _

theorem neverFinal_dict : NeverFinal (dict expr) := by
  refine neverFinal_next.bind fun _ => neverFinal_blanks.bind fun _ =>
    neverFinal_peek.bind fun _ => NeverFinal.ite ?_ ?_
  · exact neverFinal_next.bind fun _ => neverFinal_pure _
  · exact (neverFinal_entry hexpr).bind fun _ => neverFinal_here.bind fun _ =>
      (neverFinal_moreEntries hexpr _).bind fun _ =>
        (neverFinal_close _ _).bind fun _ => neverFinal_pure _

theorem neverFinal_tuple : NeverFinal (tuple expr) := by
  refine neverFinal_next.bind fun _ => neverFinal_blanks.bind fun _ =>
    neverFinal_peek.bind fun _ => NeverFinal.ite ?_ (hexpr.bind fun _ =>
      neverFinal_ahead.bind fun a => ?_)
  · exact neverFinal_next.bind fun _ => neverFinal_pure _
  · cases a with
    | none => exact neverFinal_fail rfl
    | some c =>
      refine NeverFinal.ite (neverFinal_next.bind fun _ => neverFinal_blanks.bind fun _ =>
        neverFinal_ahead.bind fun _ => NeverFinal.ite ?_ ?_) (neverFinal_fail rfl)
      · exact neverFinal_next.bind fun _ => neverFinal_pure _
      · exact (neverFinal_elements hexpr _).bind fun _ =>
          (neverFinal_close _ _).bind fun _ => neverFinal_pure _

/-- No compound fails finally, if the expressions in it do not. -/
theorem neverFinal_bracketed : NeverFinal (bracketed Strategy.plain.note expr) :=
  neverFinal_peek.bind fun _ => (neverFinal_list hexpr).ite
    ((neverFinal_attempt (neverFinal_set hexpr) (neverFinal_dict hexpr)).ite
      (neverFinal_attempt neverFinal_complex (neverFinal_tuple hexpr)))

end Compounds

/-- **Without a limit, no failure of an expression is final.** -/
theorem neverFinal_expression (count depth : Nat) :
    NeverFinal (Strategy.plain.expression none count depth) := by
  induction count generalizing depth with
  | zero => exact neverFinal_fail rfl
  | succ count ih =>
    have hfinish : ∀ x : Node, NeverFinal (do Rule.blanks; pure x : Rule Id Node) :=
      fun x => neverFinal_blanks.bind fun _ => neverFinal_pure x
    refine neverFinal_blanks.bind fun _ => neverFinal_peek.bind fun c => ?_
    refine NeverFinal.ite ?_ ?_
    · exact (neverFinal_pure ()).bind fun _ =>
        (neverFinal_bracketed (ih (depth + 1))).bind hfinish
    · exact neverFinal_single.bind hfinish

/-- Without a limit, no failure of a whole text is final. -/
theorem neverFinal_document : NeverFinal (Strategy.plain.document none) := by
  refine neverFinal_blanks.bind fun _ => neverFinal_here.bind fun p => ?_
  refine (neverFinal_fail rfl).ite ((neverFinal_expression _ 0).bind fun root => ?_)
  exact neverFinal_ahead.bind fun _ => (neverFinal_pure root).ite (neverFinal_fail rfl)

end Literals.Reader
