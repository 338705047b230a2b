/-
# Offsets and locations

A location counts line feeds and the characters behind the last of them.  What it says about an
offset follows from one fact, that every text is what ends at its last line feed and a rest without
one (`Text.exists_lastLine`).  A character more either begins a line or moves the column by one, so
**locations are in the order of the offsets**; and the line feed that a line begins behind is found
by its number (`Text.lineStart?`), so **an offset is found again from its location**.
-/
import Mathlib.Algebra.BigOperators.Group.List.Defs
import Mathlib.Data.List.Induction
import Mathlib.Data.Prod.Lex
import Literals.Proofs.ShownLine

namespace Literals

namespace Text

variable {s t u v : List Char}

/-! ## 1. The last line of a text -/

/-- Behind characters that are no line feeds the column is as many more. -/
theorem column_append_of_notMem (h : '\n' ∉ t) : column (s ++ t) = column s + t.length := by
  have hall : ∀ c ∈ t.reverse, decide (c ≠ '\n') = true := by
    intro c hc
    refine decide_eq_true ?_
    rintro rfl
    exact h (List.mem_reverse.mp hc)
  rw [column, List.reverse_append, List.takeWhile_append_of_pos hall, List.length_append,
    List.length_reverse, Nat.add_comm, column]

/-- A text is what ends at its last line feed, and a rest without one. -/
theorem exists_lastLine (s : List Char) :
    ∃ u v, s = u ++ v ∧ '\n' ∉ v ∧ (u = [] ∨ ∃ t, u = t ++ ['\n']) := by
  induction s using List.reverseRecOn with
  | nil => exact ⟨[], [], rfl, List.not_mem_nil, Or.inl rfl⟩
  | append_singleton s c ih =>
    by_cases hc : c = '\n'
    · subst hc
      exact ⟨s ++ ['\n'], [], (List.append_nil _).symm, List.not_mem_nil, Or.inr ⟨s, rfl⟩⟩
    · obtain ⟨u, v, rfl, hv, hu⟩ := ih
      refine ⟨u, v ++ [c], List.append_assoc u v [c], ?_, hu⟩
      rw [List.mem_append, List.mem_singleton, not_or]
      exact ⟨hv, fun h => hc h.symm⟩

/-- **A longer text has more line feeds, or as many and a longer last line.** -/
theorem count_lt_or_column_lt (hs : s <+: t) (hlt : s.length < t.length) :
    s.count '\n' < t.count '\n' ∨ s.count '\n' = t.count '\n' ∧ column s < column t := by
  obtain ⟨u, rfl⟩ := hs
  rw [List.length_append] at hlt
  rw [List.count_append]
  by_cases hmem : '\n' ∈ u
  · have hpos := List.count_pos_iff.mpr hmem
    exact Or.inl (by omega)
  · rw [List.count_eq_zero_of_not_mem hmem, column_append_of_notMem hmem]
    exact Or.inr ⟨rfl, by omega⟩

/-! ## 2. Where a line begins -/

/-- Where the line of a number begins: at the start of the text, and every other line right behind
a line feed. -/
def lineStart? (s : List Char) : Nat → Option Nat
  | 0 => none
  | 1 => some 0
  | n + 2 => ((s.idxsOf '\n')[n]?).map (· + 1)

/-- The line feed with a number of others before it. -/
theorem lineStart?_append_lineFeed (s t : List Char) :
    lineStart? (s ++ '\n' :: t) (s.count '\n' + 2) = some (s.length + 1) := by
  have hfeeds : (s ++ '\n' :: t).idxsOf '\n' =
      s.idxsOf '\n' ++ (s.length :: t.idxsOf '\n' (s.length + 1)) := by
    rw [List.idxsOf_append, List.idxsOf_cons, if_pos (beq_self_eq_true _), Nat.zero_add]
  have hcount : (s.idxsOf '\n').length = s.count '\n' := List.length_idxsOf
  rw [lineStart?, hfeeds, ← hcount, List.getElem?_append_right (Nat.le_refl _), Nat.sub_self]
  rfl

/-- **The line that a text ends in begins where its number says**, however the text goes on, and the
column is counted from there. -/
theorem exists_lineStart? (s t : List Char) :
    ∃ a, lineStart? (s ++ t) (s.count '\n' + 1) = some a ∧ a + column s = s.length ∧
      '\n' ∉ s.drop a := by
  obtain ⟨u, v, rfl, hv, hu⟩ := exists_lastLine s
  have hcolumn := column_append_of_notMem (s := u) hv
  have hcount : (u ++ v).count '\n' = u.count '\n' := by
    rw [List.count_append, List.count_eq_zero_of_not_mem hv, Nat.add_zero]
  have hdrop : '\n' ∉ (u ++ v).drop u.length := by rwa [List.drop_left]
  refine ⟨u.length, ?_, ?_, hdrop⟩
  · rw [hcount]
    rcases hu with rfl | ⟨u, rfl⟩
    · rfl
    · have hline := lineStart?_append_lineFeed u (v ++ t)
      rw [List.count_append, List.count_singleton_self, List.length_append,
        List.length_singleton, List.append_assoc, List.append_assoc]
      exact hline
  · have hend : column u = 0 := by
      rcases hu with rfl | ⟨u, rfl⟩
      · rfl
      · rw [column_append_lineFeed]
        rfl
    rw [hcolumn, hend, List.length_append, Nat.zero_add]

end Text

/-! ## 3. Sources -/

namespace Source

variable {s : Source}

theorem clamp_of_nonpos {o : Int} (h : o ≤ 0) : s.clamp o = 0 := by
  rw [clamp, Int.toNat_of_nonpos h, Nat.zero_min]

theorem clamp_of_length_le {o : Int} (h : s.content.length ≤ o) :
    s.clamp o = s.content.length :=
  Nat.min_eq_right (by omega)

theorem location_congr {o p : Int} (h : s.clamp o = s.clamp p) : s.location o = s.location p := by
  rw [location, location, h]

/-- Inside the text locations are in the order of the offsets. -/
theorem location_lt (s : Source) {o p : Int} (ho : 0 ≤ o) (hop : o < p)
    (hp : p ≤ s.content.length) : toLex (s.location o) < toLex (s.location p) := by
  obtain ⟨m, rfl⟩ := Int.eq_ofNat_of_zero_le ho
  obtain ⟨n, rfl⟩ := Int.eq_ofNat_of_zero_le (a := p) (by omega)
  have hprefix : s.content.take m <+: s.content.take n := List.take_prefix_take_left (by omega)
  have hlength : (s.content.take m).length < (s.content.take n).length := by
    rw [List.length_take_of_le (by omega), List.length_take_of_le (by omega)]
    omega
  rw [Prod.Lex.toLex_lt_toLex, location_of_le (by omega), location_of_le (by omega)]
  have := Text.count_lt_or_column_lt hprefix hlength
  omega

/-- **Offsets and locations are interchangeable.**  From the start of the text to its end the
locations are strictly in order, line before column, and outside they are those of the nearest end.
The line is one more than the line feeds before the offset; the offset is the column, counted from
one, behind the place where that line begins; and no line feed lies between. -/
theorem location_interchangeable (s : Source) :
    (∀ o p : Int, 0 ≤ o → o < p → p ≤ s.content.length →
        toLex (s.location o) < toLex (s.location p)) ∧
      (∀ o ≤ 0, s.location o = s.location 0) ∧
      (∀ o : Int, s.content.length ≤ o → s.location o = s.location s.content.length) ∧
      ∀ o : Nat, o ≤ s.content.length →
        (s.location o).1 = (s.content.take o).count '\n' + 1 ∧
        ∃ a, Text.lineStart? s.content (s.location o).1 = some a ∧
          a + (s.location o).2 = o + 1 ∧ '\n' ∉ (s.content.take o).drop a := by
  refine ⟨fun o p => s.location_lt, fun o ho => ?_, fun o ho => ?_, fun o ho => ?_⟩
  · exact location_congr (by rw [clamp_of_nonpos ho, clamp_of_nonpos (Int.le_refl 0)])
  · exact location_congr (by rw [clamp_of_length_le ho, clamp_of_length_le (Int.le_refl _)])
  · rw [location_of_le ho]
    obtain ⟨a, ha, hcolumn, hnone⟩ := Text.exists_lineStart? (s.content.take o) (s.content.drop o)
    rw [List.take_append_drop] at ha
    rw [List.length_take_of_le ho] at hcolumn
    exact ⟨rfl, a, ha, congrArg (· + 1) hcolumn, hnone⟩

/-- Three lines, the second of them empty: the second line feed is in the second line, and what
follows it begins the third. -/
example :
    (Source.mk "a.lit" ['a', '\n', '\n', 'b']).location 2 = (2, 1) ∧
      (Source.mk "a.lit" ['a', '\n', '\n', 'b']).location 3 = (3, 1) ∧
      Text.lineStart? ['a', '\n', '\n', 'b'] 3 = some 3 := by
  decide

end Source

end Literals
