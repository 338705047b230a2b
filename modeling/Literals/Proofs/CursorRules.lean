/-
# Rules move a cursor

A rule starts at a point, which is an offset and the text that is left.  A cursor has a whole text
and may stand behind its end, but inside the text it says no more: **the points of a text are its
cursors** (`reaches_iff_exists_cursor`).

The rules for single characters, runs, blanks and words are cursor operations seen from there: each
has one equation, which says at which point it stops as well.  Behind the end of the text a word is
nowhere, not even the empty one; the rules never come to stand there.
-/
import Literals.Proofs.CursorRuns
import Literals.Proofs.Place

namespace Literals.Cursor

open Reader

/-! ## 1. Points -/

/-- The point of a text where the cursor stands. -/
def point (c : Cursor) : Point :=
  ⟨c.position, c.remaining⟩

/-- **The points of a text are the cursors in it.** -/
theorem reaches_iff_exists_cursor {text : List Char} {p : Point} : Reaches (.start text) p ↔
    ∃ c : Cursor, c.text = text ∧ c.position ≤ text.length ∧ c.point = p := by
  constructor
  · intro h
    have hle : p.offset ≤ text.length := Nat.le.intro h.length
    exact ⟨⟨text, p.offset⟩, rfl, hle, (reaches_drop hle).unique h rfl⟩
  · rintro ⟨c, rfl, hposition, rfl⟩
    exact reaches_drop hposition

/-- What a cursor reads is left behind. -/
theorem remaining_scan (c : Cursor) (f : Char → Bool) :
    (c.scan f).2.remaining = c.remaining.dropWhile f := by
  have hrun : (c.remaining.takeWhile f) ++ c.remaining.dropWhile f = c.remaining :=
    List.takeWhile_append_dropWhile
  calc (c.scan f).2.remaining
      = c.remaining.drop (c.remaining.takeWhile f).length := List.drop_drop.symm
    _ = ((c.remaining.takeWhile f) ++ c.remaining.dropWhile f).drop
          (c.remaining.takeWhile f).length := by rw [hrun]
    _ = c.remaining.dropWhile f := List.drop_left

/-- The longest run of a class from a point on is what the cursor scans. -/
theorem span_point (c : Cursor) (f : Char → Bool) :
    c.point.span f = ((c.scan f).1, (c.scan f).2.point) := by
  rw [point, point, remaining_scan]
  rfl

/-! ## 2. Rules -/

/-- What a reading that may fail finds, and where the cursor stands then. -/
def outcome {α : Type} (c : Cursor) : Except Cause (α × Cursor) → Outcome α
  | .ok (a, c') => .ok a c'.point
  | .error e => .failed e c.point

section Rules

variable {m : Type → Type} [Monad m] (c : Cursor)

variable {c} in
/-- To go on from an earlier point is to go back to its position. -/
theorem goTo_point {c' : Cursor} (h : c'.text = c.text) :
    (Rule.goTo c.point : Rule m Unit) c'.point = pure (.ok () (c'.goTo c.position).point) := by
  have hsame : c'.goTo c.position = c := eq_of_eq h rfl
  rw [hsame]
  rfl

/-- To look ahead is to peek where there is more. -/
theorem ahead_point :
    (Rule.ahead : Rule m (Option Char)) c.point = pure (.ok c.peek.toOption c.point) := by
  have hhead : c.remaining.head? = c.peek.toOption := by
    rw [peek]
    cases c.remaining <;> rfl
  exact congrArg (fun d => pure (Outcome.ok d c.point)) hhead

theorem isSome_peek : c.peek.toOption.isSome = c.hasMore := by
  rw [peek, hasMore]
  split
  next h => exact (decide_eq_false (Nat.not_lt.mpr (List.drop_eq_nil_iff.mp h))).symm
  next d rest h =>
    refine (decide_eq_true (Nat.not_le.mp fun hle => ?_)).symm
    rw [remaining, List.drop_eq_nil_iff.mpr hle] at h
    cases h

theorem peek_point :
    (Rule.peek : Rule m Char) c.point = pure (c.outcome (c.peek.map fun d => (d, c))) := by
  refine congrArg pure ?_
  cases h : c.remaining with
  | nil => simp [point, peek, h, Except.map, outcome]
  | cons d rest => simp [point, peek, h, Except.map, outcome]

variable {c} in
/-- Behind the next character is what is left then. -/
theorem remaining_goTo {d : Char} {rest : List Char} (h : c.remaining = d :: rest) :
    (c.goTo (c.position + 1)).remaining = rest := by
  change c.text.drop (c.position + 1) = rest
  rw [← List.drop_drop, ← remaining, h]
  rfl

theorem next_point : (Rule.next : Rule m Char) c.point = pure (c.outcome c.next) := by
  refine congrArg pure ?_
  cases h : c.remaining with
  | nil => simp [point, next, h, outcome]
  | cons d rest =>
    have hrest := remaining_goTo h
    simp [point, next, h, outcome, ← hrest, goTo]

theorem takeWhile_point (f : Char → Bool) : (Rule.takeWhile f : Rule m (List Char)) c.point =
    pure (.ok (c.scan f).1 (c.scan f).2.point) := by
  rw [Rule.takeWhile, span_point]

theorem blanks_point : (Rule.blanks : Rule m Unit) c.point = pure (.ok () c.skipBlanks.point) := by
  rw [Rule.blanks, Point.skipBlanks, span_point]
  rfl

/-- One character of a class is read if the cursor peeks at one. -/
theorem oneOf_point (f : Char → Bool) : (Rule.oneOf f : Rule m (List Char)) c.point =
    pure (if c.peek.toOption.any f then c.outcome (c.next.map fun r => ([r.1], r.2))
      else .ok [] c.point) := by
  refine congrArg pure ?_
  cases h : c.remaining with
  | nil => simp [point, peek, h, Except.toOption]
  | cons d rest =>
    have hrest := remaining_goTo h
    simp [point, peek, next, h, Except.map, Except.toOption, outcome, ← hrest, goTo]

/-- A word is read if it stands at the cursor. -/
theorem word_point (h : c.position ≤ c.text.length) (w : List Char) :
    (Rule.word w : Rule m Bool) c.point =
      pure (if c.isAt w then c.outcome ((c.read w.length).map fun r => (true, r.2))
        else .ok false c.point) := by
  refine congrArg pure ?_
  have hat : c.isAt w = w.isPrefixOf c.point.rest := by
    rw [isAt, decide_eq_true h, Bool.true_and]
    rfl
  rw [← hat]
  refine ite_congr rfl (fun hw => ?_) fun _ => rfl
  have hrest : c.point.rest.drop w.length = (c.goTo (c.position + w.length)).remaining :=
    List.drop_drop
  rw [read_of_isAt hw, hrest]
  rfl

end Rules

end Literals.Cursor
