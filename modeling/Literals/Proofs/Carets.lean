/-
# Where the caret stands

Beside a source line of a diagnostic stands its number, right-aligned in four places, a blank and
the bar; the other lines about a label have three blanks before their bar.  So in a rendering without
colour **the caret stands two columns left of the character that the label is about**, and so do the
other bars of the bar beside the source line, as long as the number has no more than four digits
(`caretLags_two`).
-/
import Literals.Proofs.Rendering

namespace Literals

/-! ## 1. The first character of a kind -/

/-- The first `c` of a line stands at the index. -/
def FirstAt (c : Char) (s : List Char) (i : Nat) : Prop :=
  s[i]? = some c ∧ c ∉ s.take i

variable {c : Char} {s before : List Char} {i j : Nat}

theorem firstAt_append (h : c ∉ before) (after : List Char) :
    FirstAt c (before ++ c :: after) before.length := by
  refine ⟨?_, ?_⟩
  · rw [List.getElem?_append_right le_rfl, Nat.sub_self, List.getElem?_cons_zero]
  · rwa [List.take_left]

theorem FirstAt.le (hi : FirstAt c s i) (hj : FirstAt c s j) : i ≤ j := by
  by_contra hlt
  have hbefore : (s.take i)[j]? = some c := by
    rw [List.getElem?_take_of_lt (Nat.lt_of_not_le hlt)]
    exact hj.1
  exact hi.2 (List.mem_of_getElem? hbefore)

/-- The first of a kind stands at one index. -/
theorem FirstAt.unique (hi : FirstAt c s i) (hj : FirstAt c s j) : i = j :=
  le_antisymm (hi.le hj) (hj.le hi)

/-! ## 2. The lines about a label -/

namespace Diagnostic

/-- The lines about a label as they are written without colour. -/
def plainLines (source : Source) (l : Label) : List (List Char) :=
  (labelLines source l).map fun line => (renderLine false line).toList

/-- The caret stands `k` columns left of the character that the label is about, and every other bar
`k` columns left of the bar beside the source line. -/
def CaretLags (source : Source) (l : Label) (k : Nat) : Prop :=
  ∃ place bar shown caret message gutter,
    plainLines source l = place :: bar :: shown :: caret :: message ∧
      shown = gutter ++ source.lineAt l.span.startLine ∧
      (∃ i, FirstAt '^' caret i ∧ i + k = gutter.length + (l.span.startColumn - 1).toNat) ∧
      ∃ j, FirstAt '|' shown j ∧
        ∀ line ∈ bar :: caret :: message, ∃ i, FirstAt '|' line i ∧ i + k = j

variable {source : Source} {d : Diagnostic} {l : Label} {k m : Nat}

/-- The caret of a label stands in one place. -/
theorem CaretLags.unique (hk : CaretLags source l k) (hm : CaretLags source l m) : k = m := by
  obtain ⟨place, bar, shown, caret, message, gutter, hlines, hshown, ⟨i, hi, hik⟩, -⟩ := hk
  obtain ⟨place', bar', shown', caret', message', gutter', hlines', hshown', ⟨j, hj, hjm⟩, -⟩ := hm
  rw [hlines'] at hlines
  simp only [List.cons.injEq] at hlines
  obtain ⟨-, -, rfl, rfl, -⟩ := hlines
  obtain rfl := List.append_cancel_right (hshown'.symm.trans hshown)
  obtain rfl := hi.unique hj
  omega

/-- **The lines about a label stand in the rendering**, one after another. -/
theorem exists_plainLines (h : l ∈ d.labels) :
    ∃ before after, (d.render source false).toList =
      ['\n'].intercalate (before ++ plainLines source l ++ after) := by
  obtain ⟨ls, rs, hlabels⟩ := List.append_of_mem h
  have hlabel : labelLines source l <:+: d.labels.flatMap (labelLines source) := by
    refine ⟨ls.flatMap (labelLines source), rs.flatMap (labelLines source), ?_⟩
    rw [hlabels, List.flatMap_append, List.flatMap_cons, List.append_assoc]
  obtain ⟨first, rest, hlines⟩ : labelLines source l <:+: d.lines source :=
    hlabel.trans ((List.prefix_append ..).isInfix.trans (List.suffix_cons ..).isInfix)
  refine ⟨first.map fun line => (renderLine false line).toList,
    rest.map fun line => (renderLine false line).toList, ?_⟩
  rw [render, String.toList_intercalate, List.map_map, ← hlines, List.map_append,
    List.map_append]
  rfl

theorem render_bare (color : Bool) (t : String) : (Segment.bare t).render color = t := by
  cases color <;> rfl

theorem render_styled_false (style : Style) (t : String) :
    (Segment.styled style t).render false = t :=
  rfl

/-- A line beside the source as it is written without colour. -/
theorem plain_gutter (g : String) (line : List Segment) :
    (renderLine false (gutter g ++ line)).toList =
      "  ".toList ++ g.toList ++ line.flatMap fun s => (s.render false).toList := by
  rw [toList_renderLine, List.flatMap_append, gutter, List.flatMap_cons, List.flatMap_singleton,
    render_bare, render_styled_false]

/-- The source line stands behind two blanks, its number in four places, a blank and the bar. -/
theorem plain_shown (number : String) (shown : List Char) :
    (renderLine false (gutter (alignRight 4 number ++ " |") ++
        [.bare (" " ++ String.ofList shown)])).toList =
      "  ".toList ++ (alignRight 4 number).toList ++ " | ".toList ++ shown := by
  rw [plain_gutter, List.flatMap_singleton, render_bare]
  simp only [String.toList_append, String.toList_ofList, List.append_assoc]
  rfl

/-- The carets stand behind five blanks and the bar: the three blanks before this bar are fewer than
the number and the blank take up before the other. -/
theorem plain_carets (blanks carets : Nat) :
    (renderLine false (gutter "   |" ++
        [.bare (" " ++ String.ofList (List.replicate blanks ' ')),
          accent (String.ofList (List.replicate carets '^'))])).toList =
      "     | ".toList ++ List.replicate blanks ' ' ++ List.replicate carets '^' := by
  rw [plain_gutter, List.flatMap_cons, List.flatMap_singleton, render_bare, accent,
    render_styled_false]
  simp only [String.toList_append, String.toList_ofList, List.append_assoc]
  rfl

theorem plainLines_eq (source : Source) (l : Label) :
    ∃ place message, plainLines source l =
      place :: "     |".toList ::
      ("  ".toList ++ (alignRight 4 (toString l.span.startLine)).toList ++ " | ".toList ++
        source.lineAt l.span.startLine) ::
      ("     | ".toList ++ List.replicate (l.span.startColumn - 1).toNat ' ' ++
        List.replicate ((l.span.endColumn - l.span.startColumn + 1).toNat.max 1) '^') ::
      message ∧ ∀ line ∈ message, "     |".toList <+: line := by
  refine ⟨(renderLine false (gutter "-->" ++ [.bare (" " ++ l.span.text)])).toList,
    (if l.message = "" then [] else [gutter "   |" ++ [.bare "   ", accent l.message]]).map
      fun line => (renderLine false line).toList, ?_, ?_⟩
  · have hbar : (renderLine false (gutter "   |")).toList = "     |".toList := by decide
    unfold plainLines labelLines
    dsimp only
    rw [List.map_append, List.map_cons, List.map_cons, List.map_cons, List.map_singleton, hbar,
      plain_shown, plain_carets]
    rfl
  · intro line hline
    split at hline
    · cases hline
    · obtain rfl := List.mem_singleton.mp hline
      dsimp only
      rw [plain_gutter]
      exact List.prefix_append _ _

/-! ## 3. Columns -/

theorem firstAt_bar {line : List Char} (h : "     |".toList <+: line) : FirstAt '|' line 5 := by
  obtain ⟨after, rfl⟩ := h
  have hblank : '|' ∉ "     ".toList := by decide
  exact firstAt_append hblank after

theorem firstAt_caret (blanks carets : Nat) :
    FirstAt '^' ("     | ".toList ++ List.replicate blanks ' ' ++ List.replicate (carets.max 1) '^')
      (7 + blanks) := by
  have hbefore : '^' ∉ "     | ".toList ++ List.replicate blanks ' ' := by
    rw [List.mem_append, not_or]
    exact ⟨by decide, fun hmem => absurd (List.eq_of_mem_replicate hmem) (by decide)⟩
  have hat := firstAt_append hbefore (List.replicate (carets.max 1 - 1) '^')
  rw [List.length_append, List.length_replicate, ← List.replicate_succ,
    Nat.sub_add_cancel (Nat.le_max_right carets 1)] at hat
  exact hat

theorem firstAt_numbered {number : List Char} (hlength : number.length = 4)
    (hbar : '|' ∉ number) (shown : List Char) :
    FirstAt '|' ("  ".toList ++ number ++ " | ".toList ++ shown) 7 := by
  have hbefore : '|' ∉ "  ".toList ++ number ++ [' '] := by
    simp only [List.mem_append, not_or]
    exact ⟨⟨by decide, hbar⟩, by decide⟩
  have hat := firstAt_append hbefore (' ' :: shown)
  rw [List.length_append, List.length_append, hlength, List.append_assoc ("  ".toList ++ number)]
    at hat
  rw [List.append_assoc ("  ".toList ++ number)]
  exact hat

/-- The number of a line of at most four digits takes four places. -/
theorem length_alignRight {n : Int} (hpos : 1 ≤ n) (hlt : n < 10000) :
    (alignRight 4 (toString n)).toList.length = 4 := by
  obtain ⟨m, rfl⟩ := Int.eq_ofNat_of_zero_le (by omega : 0 ≤ n)
  have hlength : (toString (m : Int)).length ≤ 4 := by
    change m.repr.length ≤ 4
    rw [Nat.length_repr_le_iff (by decide)]
    omega
  rw [alignRight, String.toList_append, String.toList_ofList, List.length_append,
    List.length_replicate, String.length_toList]
  omega

theorem bar_notMem_alignRight (n : Int) : '|' ∉ (alignRight 4 (toString n)).toList := by
  rw [alignRight, String.toList_append, String.toList_ofList, List.mem_append, not_or]
  refine ⟨fun hmem => absurd (List.eq_of_mem_replicate hmem) (by decide), fun hmem => ?_⟩
  rcases mem_toString hmem with hdigit | hminus
  · exact absurd hdigit (by decide)
  · exact absurd hminus (by decide)

/-- Only a line with a number from one on has characters. -/
theorem one_le_of_lineAt {n : Int} (h : source.lineAt n ≠ []) : 1 ≤ n := by
  by_contra hlt
  exact h (if_neg hlt)

/-- **The caret stands two columns left of its character**, where the number of the line has at most
four digits. -/
theorem caretLags_two (hline : l.span.startLine < 10000) (hfirst : 1 ≤ l.span.startColumn)
    (hlast : l.span.startColumn ≤ (source.lineAt l.span.startLine).length) :
    CaretLags source l 2 := by
  -- A column in the line makes it a line of the source, with a number from one on.
  have hshown : source.lineAt l.span.startLine ≠ [] := by
    intro hnil
    rw [hnil, List.length_nil] at hlast
    omega
  have hlength := length_alignRight (one_le_of_lineAt hshown) hline
  obtain ⟨place, message, hlines, hmessage⟩ := plainLines_eq source l
  refine ⟨place, _, _, _, message, _, hlines, rfl, ⟨7 + (l.span.startColumn - 1).toNat, ?_, ?_⟩,
    7, ?_, ?_⟩
  · exact firstAt_caret _ _
  · rw [List.length_append, List.length_append, hlength]
    change 7 + (l.span.startColumn - 1).toNat + 2 = 2 + 4 + 3 + (l.span.startColumn - 1).toNat
    omega
  · exact firstAt_numbered hlength (bar_notMem_alignRight _) _
  · intro line hmem
    refine ⟨5, firstAt_bar ?_, rfl⟩
    simp only [List.mem_cons] at hmem
    rcases hmem with rfl | rfl | hmem
    · exact List.prefix_rfl
    · have hblank : "     |".toList <+: "     | ".toList := ⟨[' '], by decide⟩
      exact hblank.trans ((List.prefix_append ..).trans (List.prefix_append ..))
    · exact hmessage line hmem

/-- **The caret of a label stands two columns left of the character that the label is about**, for
every line with a number of at most four digits that has a character at the column; and the bars of
the other lines stand two columns left of the bar beside the source line. -/
theorem caret_two_left (h : l ∈ d.labels) (hline : l.span.startLine < 10000)
    (hfirst : 1 ≤ l.span.startColumn)
    (hlast : l.span.startColumn ≤ (source.lineAt l.span.startLine).length) :
    (∃ before after, (d.render source false).toList =
      ['\n'].intercalate (before ++ plainLines source l ++ after)) ∧ CaretLags source l 2 :=
  ⟨exists_plainLines h, caretLags_two hline hfirst hlast⟩

/-- A word with a digit too many. -/
def wordAndDigit : Source :=
  .ofString "<stdin>" "True1"

/-- What is said about the digit. -/
def garbage : Diagnostic :=
  ((Fault.ofCause .trailingText).annotate 4).diagnostic wordAndDigit

/-- The label at the digit. -/
def atDigit : Label :=
  ⟨wordAndDigit.spanAt 4, ""⟩

theorem caret_two_left_garbage :
    atDigit ∈ garbage.labels ∧ atDigit.span.startLine < 10000 ∧ 1 ≤ atDigit.span.startColumn ∧
      atDigit.span.startColumn ≤ (wordAndDigit.lineAt atDigit.span.startLine).length ∧
      CaretLags wordAndDigit atDigit 2 :=
  ⟨by decide, by decide, by decide, by decide,
    (caret_two_left (d := garbage) (by decide) (by decide) (by decide) (by decide)).2⟩

/-- **The caret does not stand below its character**: not even where a word of one line is read with
a digit behind it. -/
theorem not_caret_below :
    Reader.read "True1" none = .error ((Fault.ofCause .trailingText).annotate 4) ∧
      atDigit ∈ garbage.labels ∧ atDigit.span.startLine < 10000 ∧ 1 ≤ atDigit.span.startColumn ∧
      atDigit.span.startColumn ≤ (wordAndDigit.lineAt atDigit.span.startLine).length ∧
      ¬ CaretLags wordAndDigit atDigit 0 := by
  refine ⟨rfl, by decide, by decide, by decide, by decide, fun hbelow => ?_⟩
  have htwo : CaretLags wordAndDigit atDigit 2 :=
    caretLags_two (by decide) (by decide) (by decide)
  exact absurd (hbelow.unique htwo) (by decide)

end Diagnostic

end Literals
