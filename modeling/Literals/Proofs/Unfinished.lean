/-
# Texts that stop too early

Some failures say that the text ended too soon: where a literal or a closing bracket had to come,
or inside a string.  **They are right** (`exists_completion`): everything up to the end of the text
has been read, and with some text after it there is a literal.

This is the part of `Viable` that is about such failures: nothing is refused, and nothing is left.
-/
import Literals.Proofs.Viable

namespace Literals

namespace Cause

/-! ## 1. Reasons -/

/-- How the reasons of the early causes start: with "unexpected", "unclosed" or "missing". -/
def earlyStarts : List (List Char) :=
  [['u', 'n'], ['m', 'i']]

theorem take_toList_append {s t : String} (h : 2 ≤ s.toList.length) :
    (s ++ t).toList.take 2 = s.toList.take 2 := by
  rw [String.toList_append, List.take_append_of_le_length h]

theorem isEarly_of_take {c : Cause} (h : c.reason.toList.take 2 ∈ earlyStarts) :
    c.isEarly = true := by
  cases c with
  | endOfInput | unclosedString | missingClose => rfl
  | nestingDepth n =>
    have hreason : (Cause.nestingDepth n).reason.toList.take 2 = ['m', 'a'] := by
      unfold reason
      rw [take_toList_append (by simp), take_toList_append (by simp)]
      rfl
    exact absurd (hreason ▸ h) (by decide)
  | expectedClose d =>
    have hreason : (Cause.expectedClose d).reason.toList.take 2 = ['e', 'x'] := by
      unfold reason
      rw [take_toList_append (by simp), take_toList_append (by simp)]
      rfl
    exact absurd (hreason ▸ h) (by decide)
  | _ => exact absurd h (by decide)

/-- The kind of an error and its reason tell whether the text ended too soon. -/
theorem isEarly_of_reason {c : Cause} (h : c.kind = .endOfInput ∨
    c.reason ∈ ["unclosed string", "missing ']'", "missing ')'", "missing '\x7d'"]) :
    c.isEarly = true := by
  rcases h with h | h
  · cases c with
    | endOfInput => rfl
    | _ => cases h
  · refine isEarly_of_take ?_
    simp only [List.mem_cons, List.not_mem_nil, or_false] at h
    rcases h with h | h | h | h <;> (rw [h]; decide)

theorem isFinal_of_isEarly {c : Cause} (h : c.isEarly = true) : c.isFinal = false := by
  cases c with
  | endOfInput | unclosedString | missingClose => rfl
  | _ => cases h

/-- A text that ended too soon is read to its end. -/
theorem Refuses.of_isEarly {c : Cause} {v rest : List Char} (hrefuses : c.Refuses v rest)
    (h : c.isEarly = true) : v = [] ∧ rest = [] := by
  cases c with
  | endOfInput | unclosedString | missingClose => exact ⟨hrefuses.1, hrefuses.2 h⟩
  | _ => cases h

end Cause

namespace Reader

open Grammar Rule

variable {α : Type} {r : Rule Id α} {p : Point} {C : List Char → Prop}

/-! ## 2. Rules that the end of the text stops -/

/-- All that is left at `p` has been read at `q`, and more text makes it one of `C`. -/
structure Unfinished (C : List Char → Prop) (p q : Point) : Prop where
  stop : Spans p p.rest q
  completion : ∃ s, C (p.rest ++ s)

/-- Where the rule fails because the text ended too soon, more text makes what is left one
of `C`. -/
def Completable (r : Rule Id α) (C : List Char → Prop) (p : Point) : Prop :=
  ∀ ⦃e : Cause⦄ ⦃q : Point⦄, r p = .failed e q → e.isEarly = true → Unfinished C p q

theorem Viable.completable (h : Viable r C p) : Completable r C p := by
  intro e q he hearly
  obtain ⟨w, v, hwv, hrefuses, s, hs⟩ := h he (Cause.isFinal_of_isEarly hearly)
  obtain ⟨rfl, hnil⟩ := hrefuses.of_isEarly hearly
  rw [List.append_nil] at hwv
  have hrest : p.rest = w := by rw [hwv.rest, hnil, List.append_nil]
  rw [← hrest] at hwv hs
  exact ⟨hwv, s, hs⟩

theorem completable_document (limit : Option Int) :
    Completable (Strategy.plain.document limit) (fun t => ∃ x, Expr t x) p :=
  (viable_document limit).completable

/-- **Errors that say the text stopped too early are right.**  If a text is refused because it
ended where a literal or a closing bracket had to come, or inside a string, then the position of
the error is its end, and with some more text after it, it is a literal. -/
theorem exists_completion {text : String} {f : Fault} (h : read text none = .error f)
    (hearly : f.kind = .endOfInput ∨
      f.reason ∈ ["unclosed string", "missing ']'", "missing ')'", "missing '\x7d'"]) :
    f.position = some (text.length : Int) ∧
      ∃ (s : String) (t : Tree), read (text ++ s) none = .ok t := by
  rw [read_eq_result] at h
  cases hdoc : Strategy.plain.document none (.start text.toList) with
  | ok root q =>
    rw [hdoc] at h
    cases h
  | failed c q =>
    rw [hdoc] at h
    obtain rfl := Except.error.inj h
    obtain ⟨hstop, s, x, hx⟩ := completable_document none hdoc (Cause.isEarly_of_reason hearly)
    refine ⟨?_, String.ofList s, ⟨x⟩, read_of_expr ?_⟩
    · have hoffset : q.offset = text.length := by
        rw [hstop.offset, ← String.length_toList]
        exact Nat.zero_add _
      exact congrArg (fun n : Nat => some (n : Int)) hoffset
    · simpa [Point.start] using hx

theorem exists_completion_of_tuple :
    read "\x7b'a': [1, (None" none =
        .error ⟨.malformed, "missing ')' (at position 15)", "missing ')'", some 15⟩ ∧
      ∃ (s : String) (t : Tree), read ("\x7b'a': [1, (None" ++ s) none = .ok t := by
  have hfault : (Outcome.result (Strategy.plain.document none
      (.start "\x7b'a': [1, (None".toList))).map (fun _ => ()) =
        .error ⟨.malformed, "missing ')' (at position 15)", "missing ')'", some 15⟩ := by
    decide +kernel
  have hread : read "\x7b'a': [1, (None" none =
      .error ⟨.malformed, "missing ')' (at position 15)", "missing ')'", some 15⟩ := by
    rw [read_eq_result]
    revert hfault
    cases Outcome.result _ <;> simp [Except.map]
  exact ⟨hread, (exists_completion hread (Or.inr (by simp))).2⟩

end Reader

end Literals
