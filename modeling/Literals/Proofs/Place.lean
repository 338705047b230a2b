/-
# A rule does not see where it starts

Rules look at the text that is left and never at the offset, so a rule that starts `k` characters
further on does the same, `k` characters further on; and **no rule stops before its start**.
`Quiet` says both of a rule in any monad, beside the same rule in none, where the monad does not
come into play.

The rules for closing brackets and for literals without parts are quiet.  What is said here of the
others waits for what they do with the expressions inside.
-/
import Literals.Proofs.Failure

namespace Literals.Reader

open Rule

/-! ## 1. Points further on -/

/-- The point with the same text left, and `k` characters more before it. -/
def Point.moved (k : Nat) (p : Point) : Point :=
  ⟨p.offset + k, p.rest⟩

@[simp] theorem Point.rest_moved (k : Nat) (p : Point) : (p.moved k).rest = p.rest := rfl

@[simp] theorem Point.offset_moved (k : Nat) (p : Point) :
    (p.moved k).offset = p.offset + k := rfl

@[simp] theorem Point.moved_zero (p : Point) : p.moved 0 = p := rfl

/-- The characters of a class that come next are the same further on. -/
theorem Point.span_moved (k : Nat) (p : Point) (f : Char → Bool) :
    (p.moved k).span f = ((p.span f).1, (p.span f).2.moved k) := by
  simp [Point.span, Point.moved, Nat.add_right_comm]

theorem Point.skipBlanks_moved (k : Nat) (p : Point) :
    (p.moved k).skipBlanks = p.skipBlanks.moved k :=
  congrArg Prod.snd (p.span_moved k Text.isBlank)

theorem skipBlanks_of_head {p : Point} (h : ∀ c ∈ p.rest.head?, Text.isBlank c = false) :
    p.skipBlanks = p :=
  skipBlanks_eq (.refl p) nofun h

/-- Behind blanks there are none left to skip. -/
@[simp] theorem Point.skipBlanks_skipBlanks (p : Point) : p.skipBlanks.skipBlanks = p.skipBlanks :=
  skipBlanks_of_head (head_span p Text.isBlank)

/-- The same outcome at a point further on. -/
def Outcome.moved {α : Type} (k : Nat) : Outcome α → Outcome α
  | .ok a q => .ok a (q.moved k)
  | .failed c q => .failed c (q.moved k)

@[simp] theorem Outcome.moved_zero {α : Type} (o : Outcome α) : o.moved 0 = o := by
  cases o <;> rfl

@[simp] theorem Outcome.stop_moved {α : Type} (k : Nat) (o : Outcome α) :
    (o.moved k).stop = o.stop.moved k := by
  cases o <;> rfl

/-- The point `q` is `p` or lies behind it in the same text. -/
def Reaches (p q : Point) : Prop :=
  ∃ w, Spans p w q

theorem Reaches.refl (p : Point) : Reaches p p :=
  ⟨[], .refl p⟩

/-- What lies behind a point that lies behind another lies behind that one. -/
theorem Reaches.trans {p q r : Point} (h : Reaches p q) (h' : Reaches q r) : Reaches p r := by
  obtain ⟨u, hu⟩ := h
  obtain ⟨v, hv⟩ := h'
  exact ⟨u ++ v, hu.append hv⟩

theorem Spans.moved {p q : Point} {w : List Char} (h : Spans p w q) (k : Nat) :
    Spans (p.moved k) w (q.moved k) :=
  ⟨h.rest, by simp [h.offset, Nat.add_right_comm]⟩

/-- Behind a character that comes next there is a point. -/
theorem exists_spans_of_head {p : Point} {c : Char} (h : p.rest.head? = some c) :
    ∃ q, Spans p [c] q := by
  obtain ⟨t, ht⟩ := List.head?_eq_some_iff.mp h
  exact ⟨⟨p.offset + 1, t⟩, ht, rfl⟩

theorem Spans.reaches {p q : Point} {w : List Char} (h : Spans p w q) : Reaches p q :=
  ⟨w, h⟩

/-- A point behind another one has no smaller offset. -/
theorem Reaches.offset_le {p q : Point} (h : Reaches p q) : p.offset ≤ q.offset := by
  obtain ⟨w, hw⟩ := h
  rw [hw.offset]
  exact Nat.le_add_right _ _

/-- A text has one point at each offset. -/
theorem Reaches.unique {b p q : Point} (h : Reaches b p) (h' : Reaches b q)
    (ho : p.offset = q.offset) : p = q := by
  obtain ⟨v, hv⟩ := h
  obtain ⟨w, hw⟩ := h'
  have hlength : v.length = w.length := by
    have := hv.offset
    have := hw.offset
    omega
  have htext : v ++ p.rest = w ++ q.rest := hv.rest.symm.trans hw.rest
  obtain ⟨rfl, -⟩ := List.append_inj htext hlength
  exact hv.right_unique hw

/-- The characters before a point and those left make the text. -/
theorem Reaches.length {text : List Char} {p : Point} (h : Reaches (.start text) p) :
    p.offset + p.rest.length = text.length := by
  obtain ⟨w, hw⟩ := h
  have hoffset : p.offset = 0 + w.length := hw.offset
  have htext : text.length = w.length + p.rest.length := hw.length_rest
  omega

/-- Every offset of a text has a point. -/
theorem reaches_drop {text : List Char} {i : Nat} (h : i ≤ text.length) :
    Reaches (.start text) ⟨i, text.drop i⟩ :=
  ⟨text.take i, (List.take_append_drop i text).symm, by simp [Point.start, h]⟩

theorem reaches_skipBlanks (p : Point) : Reaches p p.skipBlanks :=
  (spans_span p Text.isBlank).reaches

/-! ## 2. Quiet rules -/

variable {m : Type → Type} [Monad m] {α β : Type} {k : Nat} {p q : Point}

/-- Further on, the rule `r` does what `r'` does at `p`, without any effect; and `r'` does not stop
before `p`. -/
structure Quiet (k : Nat) (r : Rule m α) (r' : Rule Id α) (p : Point) : Prop where
  moved : r (p.moved k) = pure (Outcome.moved k (r' p))
  reaches : Reaches p (Outcome.stop (r' p))

namespace Rule

section Bind

variable [LawfulMonad m] {r : Rule m α} {s : α → Rule m β} {a : α} {c : Cause}

/-- A rule without effects that succeeds hands over to the next. -/
theorem bind_of_pure_ok (h : r p = pure (.ok a q)) : (r >>= s) p = s a q := by
  change (r p >>= _) = _
  rw [h, pure_bind]

theorem bind_of_pure_failed (h : r p = pure (.failed c q)) : (r >>= s) p = pure (.failed c q) := by
  change (r p >>= _) = _
  rw [h, pure_bind]

end Bind

end Rule

section Sequence

variable {r : Rule m α} {r' : Rule Id α}

/-- **A sequence of quiet rules is quiet**; the second one has to be where the first one leads. -/
theorem Quiet.bind [LawfulMonad m] {s : α → Rule m β} {s' : α → Rule Id β} (h : Quiet k r r' p)
    (hs : ∀ a q, r' p = .ok a q → Quiet k (s a) (s' a) q) :
    Quiet k (r >>= s) (r' >>= s') p := by
  obtain ⟨hmoved, hreaches⟩ := h
  cases hr : r' p with
  | ok a q =>
    rw [hr] at hmoved hreaches
    obtain ⟨hmoved', hreaches'⟩ := hs a q hr
    refine ⟨?_, ?_⟩
    · rw [bind_of_pure_ok hmoved, bind_of_ok hr, hmoved']
    · rw [bind_of_ok hr]
      exact hreaches.trans hreaches'
  | failed c q =>
    rw [hr] at hmoved hreaches
    refine ⟨?_, ?_⟩
    · rw [bind_of_pure_failed hmoved, bind_of_failed hr]
      rfl
    · rw [bind_of_failed hr]
      exact hreaches

theorem Quiet.ite {t : Prop} [Decidable t] {s : Rule m α} {s' : Rule Id α} (hr : Quiet k r r' p)
    (hs : Quiet k s s' p) : Quiet k (if t then r else s) (if t then r' else s') p := by
  split
  · exact hr
  · exact hs

/-- A rule without effects is quiet if it is so in no monad. -/
theorem quiet_of_id (h : ∀ p, r p = pure (r' p)) (hr : Quiet k r' r' p) : Quiet k r r' p :=
  ⟨(h _).trans (congrArg pure hr.moved), hr.reaches⟩

/-- A rule that is quiet in no monad stays so in every other. -/
theorem Quiet.lift (h : Quiet k r' r' p) : Quiet k (Rule.lift r' : Rule m α) r' p :=
  quiet_of_id (fun _ => rfl) h

theorem quiet_pure (a : α) : Quiet k (pure a : Rule m α) (pure a) p :=
  ⟨rfl, .refl p⟩

theorem quiet_fail (c : Cause) : Quiet k (fail c : Rule m α) (fail c) p :=
  ⟨rfl, .refl p⟩

/-- What a rule that is not moved finds at one point, it finds further on. -/
theorem quiet_of_ok {a : α} (h : r' p = .ok a q) (hmoved : r' (p.moved k) = .ok a (q.moved k))
    (hq : Reaches p q) : Quiet k r' r' p :=
  ⟨hmoved.trans (by rw [h]; rfl), by rw [h]; exact hq⟩

end Sequence

/-! ## 3. Single characters -/

/-- To read a character, or fail at the end of the text, is quiet. -/
theorem quiet_next : Quiet k (next : Rule m Char) next p := by
  refine quiet_of_id (fun _ => rfl) ?_
  cases hp : p.rest with
  | nil =>
    obtain ⟨o, s⟩ := p
    obtain rfl : s = [] := hp
    exact ⟨rfl, .refl _⟩
  | cons c t =>
    have hspan : Spans p [c] ⟨p.offset + 1, t⟩ := ⟨hp, rfl⟩
    exact quiet_of_ok (next_eq_ok.mpr hspan) (next_eq_ok.mpr (hspan.moved k)) hspan.reaches

theorem quiet_peek : Quiet k (peek : Rule m Char) peek p := by
  refine quiet_of_id (fun _ => rfl) ?_
  obtain ⟨o, s⟩ := p
  cases s <;> exact ⟨rfl, .refl _⟩

theorem quiet_ahead : Quiet k (ahead : Rule m (Option Char)) ahead p :=
  ⟨rfl, .refl p⟩

theorem quiet_blanks : Quiet k (blanks : Rule m Unit) blanks p :=
  quiet_of_id (fun _ => rfl)
    ⟨congrArg (Outcome.ok ()) (p.skipBlanks_moved k), reaches_skipBlanks p⟩

/-- To take the characters of a class is quiet. -/
theorem quiet_takeWhile (f : Char → Bool) :
    Quiet k (takeWhile f : Rule m (List Char)) (takeWhile f) p := by
  refine quiet_of_id (fun _ => rfl) (quiet_of_ok takeWhile_eq ?_ (spans_span p f).reaches)
  rw [takeWhile_eq, p.span_moved k f]

theorem quiet_oneOf (f : Char → Bool) :
    Quiet k (oneOf f : Rule m (List Char)) (oneOf f) p := by
  refine quiet_of_id (fun _ => rfl) ?_
  have hnone : (∀ c ∈ p.rest.head?, f c = false) → Quiet k (oneOf f) (oneOf f) p := fun h =>
    quiet_of_ok (oneOf_of_not_head h) (oneOf_of_not_head h) (.refl p)
  cases hp : p.rest with
  | nil => exact hnone (by simp [hp])
  | cons c t =>
    cases hc : f c with
    | false => exact hnone (by simp [hp, hc])
    | true =>
      have hspan : Spans p [c] ⟨p.offset + 1, t⟩ := ⟨hp, rfl⟩
      exact quiet_of_ok (oneOf_of_head hspan hc) (oneOf_of_head (hspan.moved k) hc) hspan.reaches

/-- The test for a word is quiet: where it fails, it stays where it is. -/
theorem quiet_word (w : List Char) : Quiet k (word w : Rule m Bool) (word w) p := by
  refine quiet_of_id (fun _ => rfl) ?_
  cases hpre : w.isPrefixOf p.rest with
  | true =>
    obtain ⟨t, ht⟩ := List.isPrefixOf_iff_prefix.mp hpre
    have hspan : Spans p w ⟨p.offset + w.length, t⟩ := ⟨ht.symm, rfl⟩
    exact quiet_of_ok (word_of_spans hspan) (word_of_spans (hspan.moved k)) hspan.reaches
  | false =>
    exact quiet_of_ok (word_of_not_isPrefix hpre) (word_of_not_isPrefix (p := p.moved k) hpre)
      (.refl p)

/-- To enter a compound is no step in the text. -/
theorem quiet_enter (limit : Option Int) (depth : Nat) :
    Quiet k (enter limit depth : Rule m Unit) (enter limit depth) p := by
  cases limit with
  | none => exact quiet_pure ()
  | some n => exact (quiet_fail _).ite (quiet_pure ())

variable [LawfulMonad m]

theorem quiet_mark (c : Char) (e : Cause) :
    Quiet k (mark c e : Rule m Unit) (mark c e) p := by
  refine quiet_ahead.bind fun a q _ => ?_
  cases a with
  | none => exact quiet_fail e
  | some d => exact quiet_next.bind fun _ _ _ => (quiet_pure ()).ite (quiet_fail e)

/-- The rule for closing brackets is quiet. -/
theorem quiet_close (c : Char) (trailing : Bool) :
    Quiet k (close c trailing : Rule m Unit) (close c trailing) p := by
  refine quiet_ahead.bind fun a q _ => ?_
  cases a with
  | none => exact quiet_fail _
  | some d =>
    refine quiet_next.bind fun _ _ _ => Quiet.ite (quiet_blanks.bind fun _ _ _ => ?_)
      ((quiet_pure ()).ite (quiet_fail _))
    refine quiet_ahead.bind fun b _ _ => ?_
    cases b with
    | none => exact quiet_fail _
    | some e => exact quiet_next.bind fun _ _ _ => (quiet_pure ()).ite (quiet_fail _)

/-! ## 4. Literals without parts -/

theorem quiet_integer : Quiet k integer integer p := by
  refine (quiet_takeWhile _).bind fun s _ _ => (quiet_fail _).ite ?_
  cases integer? s with
  | some x => exact quiet_pure _
  | none => exact quiet_fail _

theorem quiet_float : Quiet k float float p := by
  refine (quiet_takeWhile _).bind fun s _ _ => (quiet_fail _).ite ((quiet_fail _).ite ?_)
  cases Number.Numeral.read? s with
  | some x => exact (quiet_fail _).ite (quiet_pure _)
  | none => exact quiet_fail _

theorem quiet_part : Quiet k part part p := by
  have htext : Quiet k partText partText p := by
    refine (quiet_oneOf _).bind fun _ _ _ => (quiet_takeWhile _).bind fun _ _ _ =>
      (quiet_oneOf _).bind fun _ _ _ => (quiet_pure _).ite ?_
    exact (quiet_oneOf _).bind fun _ _ _ => (quiet_takeWhile _).bind fun _ _ _ => quiet_pure _
  refine htext.bind fun s _ _ => ?_
  cases Number.Numeral.read? s with
  | some x => exact quiet_pure _
  | none => exact quiet_fail _

theorem quiet_imaginary : Quiet k imaginary imaginary p :=
  quiet_part.bind fun _ _ _ => (quiet_mark _ _).bind fun _ _ _ => quiet_pure _

/-- Complex numbers are quiet, in either form. -/
theorem quiet_complex : Quiet k complex complex p := by
  refine quiet_peek.bind fun _ _ _ => Quiet.ite ?_ ?_
  · exact quiet_next.bind fun _ _ _ => quiet_part.bind fun _ _ _ =>
      quiet_imaginary.bind fun _ _ _ => (quiet_mark _ _).bind fun _ _ _ => quiet_pure _
  · exact quiet_imaginary.bind fun _ _ _ => quiet_pure _

/-- The text of a string is the same further on. -/
theorem stringBody_moved (quote : Char) (o : Nat) (s : List Char) :
    stringBody quote (o + k) s = (stringBody quote o s).moved k := by
  fun_induction stringBody quote o s with
  | case1 o => rfl
  | case2 o rest =>
    rw [stringBody.eq_def]
    simp [Outcome.moved, Point.moved, Nat.add_right_comm]
  | case3 o hquote => simp [stringBody, hquote, Outcome.moved, Point.moved, Nat.add_right_comm]
  | case4 o e rest text stop heq hquote ih =>
    rw [heq] at ih
    simp [stringBody, hquote, Nat.add_right_comm o k 2, ih, Outcome.moved]
  | case5 o e rest cause stop heq hquote ih =>
    rw [heq] at ih
    simp [stringBody, hquote, Nat.add_right_comm o k 2, ih, Outcome.moved]
  | case6 o c rest hquote hback text stop heq ih =>
    rw [heq] at ih
    rw [stringBody.eq_def]
    simp [hquote, hback, Nat.add_right_comm o k 1, ih, Outcome.moved]
  | case7 o c rest hquote hback cause stop heq ih =>
    rw [heq] at ih
    rw [stringBody.eq_def]
    simp [hquote, hback, Nat.add_right_comm o k 1, ih, Outcome.moved]

/-- The text of a string is not left before its start, however it ends. -/
theorem reaches_stringBody (quote : Char) (o : Nat) (s : List Char) :
    Reaches ⟨o, s⟩ (stringBody quote o s).stop := by
  have hstep : ∀ {o : Nat} {w rest : List Char}, Reaches ⟨o, w ++ rest⟩ ⟨o + w.length, rest⟩ :=
    Spans.reaches ⟨rfl, rfl⟩
  fun_induction stringBody quote o s with
  | case1 o => exact .refl _
  | case2 o rest => exact hstep (w := [quote])
  | case3 o => exact hstep (w := ['\\'])
  | case4 o e rest text stop heq _ ih =>
    rw [heq] at ih
    exact (hstep (w := ['\\', e])).trans ih
  | case5 o e rest cause stop heq _ ih =>
    rw [heq] at ih
    exact (hstep (w := ['\\', e])).trans ih
  | case6 o c rest _ _ text stop heq ih =>
    rw [heq] at ih
    exact (hstep (w := [c])).trans ih
  | case7 o c rest _ _ cause stop heq ih =>
    rw [heq] at ih
    exact (hstep (w := [c])).trans ih

theorem quiet_string : Quiet k string string p := by
  refine quiet_next.bind fun quote q _ => Quiet.bind ?_ fun _ _ _ => quiet_pure _
  exact ⟨stringBody_moved quote q.offset q.rest, reaches_stringBody quote q.offset q.rest⟩

theorem quiet_bool : Quiet k bool bool p :=
  (quiet_word _).bind fun _ _ _ => (quiet_pure _).ite
    ((quiet_word _).bind fun _ _ _ => (quiet_pure _).ite (quiet_fail _))

theorem quiet_noneLiteral : Quiet k noneLiteral noneLiteral p :=
  (quiet_word _).bind fun _ _ _ => (quiet_pure _).ite (quiet_fail _)

end Literals.Reader
