/-
# Where an error points

The position of an error is where the reader stopped, and a reader that peeks before it refuses a
character stops in front of it: what lies before the position is then the beginning of some literal.
**Two errors point behind what they refuse** (`exists_prefix_of_error`): one character too far where
a closing bracket was expected, and at the end of a run of digits and minuses of which only the
beginning is an integer.  For these two the text before the position may be the beginning of nothing
that is accepted (`not_extendable_expectedClose`); for all others it is.
-/
import Literals.Proofs.Viable

namespace Literals.Reader

open Grammar

/-- What an error with this reason has refused of the text before its position: nothing, or a wrong
character in the place of a closing bracket, or all of a run of digits and minuses from a minus on
that is not at its start. -/
def Refused (reason : String) (v : List Char) : Prop :=
  v = [] ∨
    (reason ∈ ["expected ']'", "expected ')'", "expected '\x7d'"] ∧ ∃ c, v = [c]) ∨
    (reason = "invalid integer format" ∧
      ∃ s, v = '-' :: s ∧ ∀ c ∈ s, isIntegerChar c = true)

theorem refused_of_refuses {c : Cause} {v rest : List Char} (h : c.Refuses v rest) :
    Refused c.reason v := by
  cases c with
  | expectedClose d =>
    obtain ⟨hd, hv⟩ := h
    simp only [List.mem_cons, List.not_mem_nil, or_false] at hd
    refine .inr (.inl ⟨?_, hv⟩)
    rcases hd with rfl | rfl | rfl <;> decide
  | badInteger =>
    rcases h with hnil | hv
    · exact .inl hnil
    · exact .inr (.inr ⟨rfl, hv⟩)
  | _ => exact .inl h.1

/-- **Up to what it refuses, an error stops at the end of what may still become a literal.**  The
text before the position of an error is a text `w` that can be extended to one that is accepted, and
then what the error refuses: nothing for most reasons, and what `Refused` allows for two. -/
theorem exists_prefix_of_error {text : String} {f : Fault} (h : read text none = .error f) :
    ∃ w v rest : List Char, text.toList = w ++ (v ++ rest) ∧
      f.position = some ((w ++ v).length : Int) ∧ Refused f.reason v ∧
      ∃ (s : String) (t : Tree), read (String.ofList w ++ s) none = .ok t := by
  rw [read_eq_result] at h
  cases hdoc : Strategy.plain.document none (.start text.toList) with
  | ok root q =>
    rw [hdoc] at h
    cases h
  | failed c q =>
    rw [hdoc] at h
    obtain rfl := Except.error.inj h
    obtain ⟨w, v, hwv, hrefuses, s, x, hx⟩ :=
      viable_document none hdoc (neverFinal_document hdoc)
    refine ⟨w, v, q.rest, ?_, ?_, refused_of_refuses hrefuses, String.ofList s, ⟨x⟩, ?_⟩
    · rw [← List.append_assoc]
      exact hwv.rest
    · have hoffset : q.offset = (w ++ v).length := hwv.offset.trans (Nat.zero_add _)
      exact congrArg (fun n : Nat => some (n : Int)) hoffset
    · refine read_of_expr ?_
      simpa using hx

/-- The two in `[1 2]` is read where a bracket or a comma had to come. -/
theorem exists_prefix_of_bracket :
    read "[1 2]" none =
        .error ⟨.malformed, "expected ']' (at position 4)", "expected ']'", some 4⟩ ∧
      ∃ w v rest : List Char, "[1 2]".toList = w ++ (v ++ rest) ∧
        some 4 = some ((w ++ v).length : Int) ∧ Refused "expected ']'" v ∧
        ∃ (s : String) (t : Tree), read (String.ofList w ++ s) none = .ok t := by
  have hread : read "[1 2]" none =
      .error ⟨.malformed, "expected ']' (at position 4)", "expected ']'", some 4⟩ := by
    rw [read_eq_result]
    rfl
  exact ⟨hread, exists_prefix_of_error hread⟩

/-- **No text goes on from the position of this error.** -/
theorem not_extendable_expectedClose :
    read "[1 2]" none =
        .error ⟨.malformed, "expected ']' (at position 4)", "expected ']'", some 4⟩ ∧
      ∀ s : String, ¬ ∃ t, read ("[1 2" ++ s) none = .ok t := by
  refine ⟨?_, fun s => ?_⟩
  · rw [read_eq_result]
    rfl
  · rintro ⟨t, ht⟩
    have hstop : Strategy.plain.document none (.start ('[' :: '1' :: ' ' :: '2' :: s.toList)) =
        .failed (.expectedClose ']') ⟨4, s.toList⟩ := rfl
    obtain ⟨q, hq⟩ := read_eq_ok.mp ht
    rw [String.toList_append] at hq
    exact nomatch hstop.symm.trans hq

end Literals.Reader
