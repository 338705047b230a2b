/-
# The calculus of reading rules

What a rule does is said here in terms of the text it reads: `Spans p w q` says that `w` is the
text between the points `p` and `q`.  Every single-character rule is characterised by the text it
spans, and a sequence of two rules by the point between them (`bind_eq_ok`), so that **whatever is
proved of whole rules later never unfolds the monad again**.  The last part says which of two
alternatives is taken.
-/
import Mathlib.Data.List.TakeWhile
import Literals.Reader.Session

namespace Literals.Reader

/-! ## 1. Runs of a class of characters -/

section Runs

variable {f : Char → Bool} {s t : List Char}

/-- A run of a class is taken whole where the next character is not of the class. -/
theorem takeWhile_append_of_head (hs : ∀ c ∈ s, f c = true) (ht : ∀ c ∈ t.head?, f c = false) :
    (s ++ t).takeWhile f = s := by
  rw [List.takeWhile_append_of_pos hs]
  cases t with
  | nil => simp
  | cons c t => simp [ht c rfl]

theorem dropWhile_append_of_head (hs : ∀ c ∈ s, f c = true) (ht : ∀ c ∈ t.head?, f c = false) :
    (s ++ t).dropWhile f = t := by
  rw [List.dropWhile_append_of_pos hs]
  cases t with
  | nil => rfl
  | cons c t => simp [ht c rfl]

end Runs

/-! ## 2. Texts between points -/

/-- The text `w` lies between the points `p` and `q`. -/
structure Spans (p : Point) (w : List Char) (q : Point) : Prop where
  rest : p.rest = w ++ q.rest
  offset : q.offset = p.offset + w.length

namespace Spans

variable {p q r : Point} {u v w : List Char} {c : Char}

theorem refl (p : Point) : Spans p [] p :=
  ⟨rfl, rfl⟩

theorem append (h : Spans p u q) (h' : Spans q v r) : Spans p (u ++ v) r :=
  ⟨by rw [h.rest, h'.rest, List.append_assoc],
    by rw [h'.offset, h.offset, List.length_append, Nat.add_assoc]⟩

/-- A character and the text after it. -/
theorem cons (h : Spans p [c] q) (h' : Spans q v r) : Spans p (c :: v) r :=
  h.append h'

/-- Between the two halves of a text there is a point. -/
theorem split (h : Spans p (u ++ v) r) : ∃ q, Spans p u q ∧ Spans q v r := by
  refine ⟨⟨p.offset + u.length, v ++ r.rest⟩, ⟨?_, rfl⟩, ⟨rfl, ?_⟩⟩
  · rw [h.rest, List.append_assoc]
  · rw [h.offset, List.length_append, Nat.add_assoc]

theorem uncons (h : Spans p (c :: v) r) : ∃ q, Spans p [c] q ∧ Spans q v r :=
  h.split (u := [c])

theorem eq_of_nil (h : Spans p [] q) : p = q := by
  obtain ⟨o, s⟩ := p
  obtain ⟨o', s'⟩ := q
  simpa [eq_comm] using And.intro h.offset h.rest

/-- A text is left behind by one point only. -/
theorem right_unique (h : Spans p w q) (h' : Spans p w r) : q = r := by
  obtain ⟨o, s⟩ := q
  obtain ⟨o', s'⟩ := r
  have hs : w ++ s = w ++ s' := h.rest.symm.trans h'.rest
  have ho : o = o' := h.offset.trans h'.offset.symm
  rw [ho, List.append_cancel_left hs]

theorem head (h : Spans p (c :: w) q) : p.rest.head? = some c := by
  rw [h.rest]
  rfl

/-- What comes next after the first point is the first character of the text. -/
theorem mem_of_mem_head? (h : Spans p w q) (hw : w ≠ []) (hc : c ∈ p.rest.head?) : c ∈ w := by
  obtain ⟨d, t, rfl⟩ := List.exists_cons_of_ne_nil hw
  obtain rfl : d = c := by simpa [h.head] using hc
  exact List.mem_cons_self

theorem length_rest (h : Spans p w q) : p.rest.length = w.length + q.rest.length := by
  rw [h.rest, List.length_append]

end Spans

/-- Every character of the text is a blank. -/
def Blank (w : List Char) : Prop :=
  ∀ c ∈ w, Text.isBlank c = true

/-- The longest run of a class is a text that starts at the point. -/
theorem spans_span (p : Point) (inClass : Char → Bool) :
    Spans p (p.span inClass).1 (p.span inClass).2 :=
  ⟨List.takeWhile_append_dropWhile.symm, rfl⟩

/-- The longest run of a class, where it is known which character stops it. -/
theorem span_eq {p q : Point} {w : List Char} {inClass : Char → Bool} (h : Spans p w q)
    (hw : ∀ c ∈ w, inClass c = true) (hq : ∀ c ∈ q.rest.head?, inClass c = false) :
    p.span inClass = (w, q) := by
  have htake : p.rest.takeWhile inClass = w := by
    rw [h.rest, takeWhile_append_of_head hw hq]
  have hspan := spans_span p inClass
  have hfst : (p.span inClass).1 = w := htake
  rw [hfst] at hspan
  exact Prod.ext htake (hspan.right_unique h)

/-- After a run of a class comes no character of the class. -/
theorem head_span (p : Point) (inClass : Char → Bool) :
    ∀ c ∈ (p.span inClass).2.rest.head?, inClass c = false := by
  intro c hc
  have h := List.head?_dropWhile_not inClass p.rest
  rw [show (p.rest.dropWhile inClass).head? = some c from hc] at h
  simpa using h

/-- Blanks are skipped as a blank text. -/
theorem spans_skipBlanks (p : Point) : ∃ w, Blank w ∧ Spans p w p.skipBlanks :=
  ⟨_, fun _ h => List.mem_takeWhile_imp h, spans_span p Text.isBlank⟩

theorem skipBlanks_eq {p q : Point} {w : List Char} (h : Spans p w q) (hw : Blank w)
    (hq : ∀ c ∈ q.rest.head?, Text.isBlank c = false) : p.skipBlanks = q :=
  congrArg Prod.snd (span_eq h hw hq)

/-! ## 3. Plain rules -/

namespace Rule

variable {α β : Type} {p q : Point} {a : α} {b : β} {c d : Char} {e : Cause}

section Sequence

variable {r : Rule Id α} {k : α → Rule Id β}

theorem bind_of_ok (h : r p = .ok a q) : (r >>= k) p = k a q := by
  change (match r p with | .ok a q => k a q | .failed c q => .failed c q) = _
  rw [h]

theorem bind_of_failed (h : r p = .failed e q) : (r >>= k) p = .failed e q := by
  change (match r p with | .ok a q => k a q | .failed c q => .failed c q) = _
  rw [h]

theorem bind_bind_of_ok {γ : Type} {l : β → Rule Id γ} (h : r p = .ok a q) :
    ((r >>= k) >>= l) p = (k a >>= l) q := by
  change (match (r >>= k) p with | .ok b m => l b m | .failed c m => .failed c m) = _
  rw [bind_of_ok h]
  rfl

theorem bind_bind_of_failed {γ : Type} {l : β → Rule Id γ} (h : r p = .failed e q) :
    ((r >>= k) >>= l) p = .failed e q :=
  bind_of_failed (bind_of_failed h)

/-- **A sequence succeeds through a point between its parts.** -/
theorem bind_eq_ok : (r >>= k) p = .ok b q ↔ ∃ a m, r p = .ok a m ∧ k a m = .ok b q := by
  constructor
  · intro h
    cases hr : r p with
    | ok a m => exact ⟨a, m, rfl, (bind_of_ok hr).symm.trans h⟩
    | failed e m => rw [bind_of_failed hr] at h; cases h
  · rintro ⟨a, m, hr, hk⟩
    rw [bind_of_ok hr, hk]

/-- **A sequence fails where its first part fails, or where its second part does.** -/
theorem bind_eq_failed : (r >>= k) p = .failed e q ↔
    r p = .failed e q ∨ ∃ a m, r p = .ok a m ∧ k a m = .failed e q := by
  cases hr : r p with
  | ok a m =>
    rw [bind_of_ok hr]
    constructor
    · exact fun h => Or.inr ⟨a, m, rfl, h⟩
    · rintro (h | ⟨a', m', h, hk⟩)
      · cases h
      · obtain ⟨rfl, rfl⟩ := Outcome.ok.inj h
        exact hk
  | failed e' m =>
    rw [bind_of_failed hr]
    constructor
    · intro h
      obtain ⟨rfl, rfl⟩ := Outcome.failed.inj h
      exact Or.inl rfl
    · rintro (h | ⟨_, _, h, -⟩)
      · obtain ⟨rfl, rfl⟩ := Outcome.failed.inj h
        rfl
      · cases h

end Sequence

theorem pure_ne_failed {x : α} : (pure x : Rule Id α) p ≠ .failed e q :=
  nofun

theorem fail_eq_failed {e' : Cause} :
    (fail e' : Rule Id α) p = .failed e q ↔ e' = e ∧ p = q := by
  change (Outcome.failed e' p = Outcome.failed e q) ↔ _
  rw [Outcome.failed.injEq]

theorem pure_eq_ok {x : α} : (pure x : Rule Id α) p = .ok a q ↔ x = a ∧ p = q := by
  change (Outcome.ok x p = Outcome.ok a q) ↔ _
  rw [Outcome.ok.injEq]

theorem fail_ne_ok : (fail e : Rule Id α) p ≠ .ok a q :=
  nofun

theorem next_eq_ok : (next : Rule Id Char) p = .ok c q ↔ Spans p [c] q := by
  obtain ⟨o, s⟩ := p
  obtain ⟨o', s'⟩ := q
  cases s with
  | nil => exact ⟨nofun, fun h => nomatch h.rest⟩
  | cons d t =>
    change (Outcome.ok d ⟨o + 1, t⟩ = Outcome.ok c ⟨o', s'⟩) ↔ _
    constructor
    · intro h
      simp only [Outcome.ok.injEq, Point.mk.injEq] at h
      obtain ⟨rfl, rfl, rfl⟩ := h
      exact ⟨rfl, rfl⟩
    · rintro ⟨h, h'⟩
      simp only [List.cons_append, List.nil_append, List.cons.injEq, List.length_singleton] at h h'
      rw [h.1, h.2, h']

theorem peek_eq_ok : (peek : Rule Id Char) p = .ok c q ↔ p.rest.head? = some c ∧ p = q := by
  obtain ⟨o, s⟩ := p
  cases s with
  | nil => exact ⟨nofun, fun h => nomatch h.1⟩
  | cons d t =>
    change (Outcome.ok d ⟨o, d :: t⟩ = Outcome.ok c q) ↔ _
    simp

theorem peek_of_head (h : p.rest.head? = some c) : (peek : Rule Id Char) p = .ok c p :=
  peek_eq_ok.mpr ⟨h, rfl⟩

theorem ahead_eq : (ahead : Rule Id (Option Char)) p = .ok p.rest.head? p := rfl

theorem here_eq : (here : Rule Id Point) p = .ok p p := rfl

theorem goTo_eq : (goTo q : Rule Id Unit) p = .ok () q := rfl

theorem blanks_eq : (blanks : Rule Id Unit) p = .ok () p.skipBlanks := rfl

theorem takeWhile_eq {f : Char → Bool} :
    (takeWhile f : Rule Id (List Char)) p = .ok (p.span f).1 (p.span f).2 := rfl

/-- One character of a class is read where one comes next. -/
theorem oneOf_of_head {f : Char → Bool} (h : Spans p [c] q) (hc : f c = true) :
    (oneOf f : Rule Id (List Char)) p = .ok [c] q := by
  have hq : q = ⟨p.offset + 1, q.rest⟩ := by
    rw [show p.offset + 1 = q.offset from h.offset.symm]
  unfold oneOf
  rw [h.rest, hq]
  exact if_pos hc

theorem oneOf_of_not_head {f : Char → Bool} (h : ∀ c ∈ p.rest.head?, f c = false) :
    (oneOf f : Rule Id (List Char)) p = .ok [] p := by
  unfold oneOf
  cases hr : p.rest with
  | nil => rfl
  | cons c t => exact if_neg (by simp [h c (by simp [hr])])

/-- What is read of a class is one character of it, or nothing before another character. -/
theorem oneOf_eq_ok {f : Char → Bool} {s : List Char}
    (h : (oneOf f : Rule Id (List Char)) p = .ok s q) :
    Spans p s q ∧ (∀ c ∈ s, f c = true) ∧ (s = [] → ∀ c ∈ q.rest.head?, f c = false) := by
  have hnone : (∀ c ∈ p.rest.head?, f c = false) → Spans p s q ∧ (∀ c ∈ s, f c = true) ∧
      (s = [] → ∀ c ∈ q.rest.head?, f c = false) := by
    intro hf
    rw [oneOf_of_not_head hf] at h
    obtain ⟨rfl, rfl⟩ := Outcome.ok.inj h
    exact ⟨.refl _, nofun, fun _ => hf⟩
  cases hp : p.rest with
  | nil => exact hnone (by simp [hp])
  | cons c t =>
    cases hc : f c with
    | false => exact hnone (by simp [hp, hc])
    | true =>
      have hspan : Spans p [c] ⟨p.offset + 1, t⟩ := ⟨hp, rfl⟩
      rw [oneOf_of_head hspan hc] at h
      obtain ⟨rfl, rfl⟩ := Outcome.ok.inj h
      exact ⟨hspan, by simpa using hc, nofun⟩

theorem word_of_spans {w : List Char} (h : Spans p w q) :
    (word w : Rule Id Bool) p = .ok true q := by
  have hpre : w.isPrefixOf p.rest = true := by
    rw [List.isPrefixOf_iff_prefix, h.rest]
    exact List.prefix_append w q.rest
  have hq : q = ⟨p.offset + w.length, p.rest.drop w.length⟩ := by
    rw [h.rest, List.drop_left, ← h.offset]
  change (if w.isPrefixOf p.rest = true then Outcome.ok true _ else _) = _
  rw [if_pos hpre, hq]

theorem word_of_not_isPrefix {w : List Char} (h : w.isPrefixOf p.rest = false) :
    (word w : Rule Id Bool) p = .ok false p := by
  change (if w.isPrefixOf p.rest = true then Outcome.ok true _ else _) = _
  rw [h, if_neg nofun]

/-- A word is read, or nothing is. -/
theorem word_eq_ok {w : List Char} {b : Bool} (h : (word w : Rule Id Bool) p = .ok b q) :
    if b then Spans p w q else p = q := by
  cases hpre : w.isPrefixOf p.rest with
  | true =>
    obtain ⟨t, ht⟩ := List.isPrefixOf_iff_prefix.mp hpre
    have hspan : Spans p w ⟨p.offset + w.length, t⟩ := ⟨ht.symm, rfl⟩
    rw [word_of_spans hspan] at h
    obtain ⟨rfl, rfl⟩ := Outcome.ok.inj h
    exact hspan
  | false =>
    rw [word_of_not_isPrefix hpre] at h
    obtain ⟨rfl, rfl⟩ := Outcome.ok.inj h
    exact rfl

theorem mark_of_head (h : Spans p [c] q) : (mark c e : Rule Id Unit) p = .ok () q := by
  rw [mark, bind_of_ok ahead_eq, h.head]
  exact (bind_of_ok (next_eq_ok.mpr h)).trans (by simp [pure_eq_ok])

theorem mark_eq_ok {u : Unit} : (mark c e : Rule Id Unit) p = .ok u q ↔ Spans p [c] q := by
  refine ⟨fun h => ?_, mark_of_head⟩
  rw [mark, bind_of_ok ahead_eq] at h
  cases hr : p.rest.head? with
  | none => rw [hr] at h; exact absurd h fail_ne_ok
  | some d =>
    rw [hr] at h
    obtain ⟨d', m, hm, h⟩ := bind_eq_ok.mp h
    rw [next_eq_ok] at hm
    obtain rfl : d = d' := by simpa [hm.head] using hr.symm
    split at h
    next hd =>
      obtain ⟨-, rfl⟩ := pure_eq_ok.mp h
      exact hd ▸ hm
    next => exact absurd h fail_ne_ok

end Rule

/-! ## 4. Alternatives -/

section Alternatives

variable {note : Retry → Id Unit} {trial : Trial} {first second : Rule Id Node} {p q : Point}
  {x : Node} {c : Cause}

theorem attempt_of_ok (h : first p = .ok x q) : attempt note trial first second p = .ok x q := by
  change (match first p with | .ok x q => _ | .failed c q => _) = _
  rw [h]
  rfl

/-- After a failure that is not final the second rule starts where the first one did. -/
theorem attempt_of_failed (h : first p = .failed c q) (hc : c.isFinal = false) :
    attempt note trial first second p = second p := by
  change (match first p with
    | .ok x q => _
    | .failed c q => if c.isFinal then _ else second p) = _
  rw [h]
  exact if_neg (by simp [hc])

theorem attempt_of_final (h : first p = .failed c q) (hc : c.isFinal = true) :
    attempt note trial first second p = .failed c q := by
  change (match first p with
    | .ok x q => _
    | .failed c q => if c.isFinal then Outcome.failed c q else second p) = _
  rw [h]
  exact if_pos hc

theorem attempt_eq_ok (h : attempt note trial first second p = .ok x q) :
    first p = .ok x q ∨ second p = .ok x q := by
  cases hfirst : first p with
  | ok y m => exact Or.inl ((attempt_of_ok hfirst).symm.trans h)
  | failed c m =>
    cases hc : c.isFinal with
    | false => exact Or.inr ((attempt_of_failed hfirst hc).symm.trans h)
    | true => exact nomatch (attempt_of_final hfirst hc).symm.trans h

end Alternatives

end Literals.Reader
