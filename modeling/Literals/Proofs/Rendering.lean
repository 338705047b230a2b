/-
# Diagnostics with and without colour

The two renderings of a diagnostic have the same segments, line by line.  A segment in a style is
written between two control sequences, so **taking the sequences out of the coloured rendering
leaves the other one** (`strip_written`), as long as no text of the diagnostic has an escape of its
own; and since the sequence behind a styled text is the reset, **no style reaches beyond its
segment** (`closed_written`).
-/
import Literals.Diagnostic
import Literals.Proofs.Unstyled

namespace Literals

open Text.Ansi

/-! ## 1. Lines as they are written -/

/-- Lines of segments as they are written, with a line feed between any two. -/
def written (color : Bool) (lines : List (List Segment)) : List Char :=
  ['\n'].intercalate (lines.map fun line => line.flatMap fun s => (s.render color).toList)

theorem toList_renderLine (color : Bool) (line : List Segment) :
    (renderLine color line).toList = line.flatMap fun s => (s.render color).toList := by
  rw [renderLine, String.toList_join, List.flatMap_map]

theorem Diagnostic.toList_render (source : Source) (color : Bool) (d : Diagnostic) :
    (d.render source color).toList = written color (d.lines source) := by
  rw [render, String.toList_intercalate, List.map_map, written]
  simp only [Function.comp_def, toList_renderLine]
  rfl

theorem written_singleton (color : Bool) (line : List Segment) :
    written color [line] = line.flatMap fun s => (s.render color).toList := by
  rw [written, List.map_singleton, List.intercalate_singleton]

theorem written_cons_cons (color : Bool) (line next : List Segment) (lines : List (List Segment)) :
    written color (line :: next :: lines) =
      (line.flatMap fun s => (s.render color).toList) ++ '\n' :: written color (next :: lines) := by
  rw [written, List.map_cons, List.map_cons, List.intercalate_cons_cons, List.append_assoc]
  rfl

/-- No segment of the lines has an escape in its text. -/
def EscapeFree (lines : List (List Segment)) : Prop :=
  ∀ line ∈ lines, ∀ s ∈ line, esc ∉ s.text.toList

/-! ## 2. Without the control sequences -/

/-- A control sequence: an escape and the characters that belong to it, whatever follows. -/
def IsSequence (a : List Char) : Prop :=
  ∃ r, a = esc :: r ∧ esc ∉ r ∧ ∀ t, afterSequence? (r ++ t) = some t

theorem isSequence_code (style : Style) : IsSequence style.code.toList := by
  cases style <;> exact ⟨_, rfl, by decide, fun _ => rfl⟩

theorem isSequence_reset : IsSequence Style.reset.toList :=
  ⟨_, rfl, by decide, fun _ => rfl⟩

theorem IsSequence.strip_append {a : List Char} (h : IsSequence a) (t : List Char) :
    strip (a ++ t) = strip t := by
  obtain ⟨r, rfl, -, hafter⟩ := h
  exact strip_sequence (hafter t)

/-- Two texts that start with control sequences start with the same one if they are the same. -/
theorem IsSequence.append_inj {a b s t : List Char} (ha : IsSequence a) (hb : IsSequence b)
    (h : a ++ s = b ++ t) : a = b ∧ s = t := by
  obtain ⟨r, rfl, -, hr⟩ := ha
  obtain ⟨q, rfl, -, hq⟩ := hb
  have htail : r ++ s = q ++ t := (List.cons.inj h).2
  obtain rfl : s = t := Option.some.inj ((hr s).symm.trans ((congrArg _ htail).trans (hq t)))
  exact ⟨List.append_cancel_right h, rfl⟩

/-- A segment without its control sequences is its text. -/
theorem strip_segment {s : Segment} (h : esc ∉ s.text.toList) (t : List Char) :
    strip ((s.render true).toList ++ t) = (s.render false).toList ++ strip t := by
  obtain ⟨style, text⟩ := s
  cases style with
  | none => exact strip_append h t
  | some style =>
    change strip ((style.code ++ text ++ Style.reset).toList ++ t) = text.toList ++ strip t
    rw [String.toList_append, String.toList_append, List.append_assoc, List.append_assoc,
      (isSequence_code style).strip_append, strip_append h, isSequence_reset.strip_append]

theorem strip_written {lines : List (List Segment)} (h : EscapeFree lines) :
    strip (written true lines) = written false lines := by
  have hline : ∀ line : List Segment, (∀ s ∈ line, esc ∉ s.text.toList) → ∀ t,
      strip ((line.flatMap fun s => (s.render true).toList) ++ t) =
        (line.flatMap fun s => (s.render false).toList) ++ strip t :=
    fun line hs => strip_flatMap fun s hmem => strip_segment (hs s hmem)
  induction lines with
  | nil => rw [written, List.map_nil, List.intercalate_nil, strip]; rfl
  | cons line lines ih =>
    obtain ⟨hfirst, hrest⟩ := List.forall_mem_cons.mp h
    cases lines with
    | nil =>
      have hstrip := hline line hfirst []
      rwa [List.append_nil, strip, List.append_nil, ← written_singleton, ← written_singleton]
        at hstrip
    | cons next lines =>
      rw [written_cons_cons, hline line hfirst, strip_cons_of_ne (by decide), ih hrest,
        ← written_cons_cons]

/-! ## 3. Styles that are switched off again -/

/-- The text starts with the reset, or with the code of a style and has the reset behind that,
before any other escape. -/
def Switches (s : List Char) : Prop :=
  Style.reset.toList <+: s ∨
    ∃ (style : Style) (text rest : List Char),
      s = style.code.toList ++ text ++ Style.reset.toList ++ rest ∧ esc ∉ text

/-- At every escape of the text a style is switched off, or on and then off again. -/
def Closed (s : List Char) : Prop :=
  ∀ rest, esc :: rest <:+ s → Switches (esc :: rest)

variable {s t : List Char}

theorem Switches.append (h : Switches s) (t : List Char) : Switches (s ++ t) := by
  rcases h with hreset | ⟨style, text, rest, rfl, htext⟩
  · exact Or.inl (hreset.trans (List.prefix_append s t))
  · exact Or.inr ⟨style, text, rest ++ t, List.append_assoc .., htext⟩

theorem closed_nil : Closed [] := fun _ h => by cases List.suffix_nil.mp h

/-- Only an escape at the start says something about what is behind it. -/
theorem closed_cons {c : Char} : Closed (c :: s) ↔ (c = esc → Switches (c :: s)) ∧ Closed s := by
  constructor
  · intro h
    refine ⟨?_, fun rest hrest => h rest (hrest.trans (List.suffix_cons c s))⟩
    rintro rfl
    exact h s List.suffix_rfl
  · rintro ⟨hfirst, hs⟩ rest hrest
    rcases List.suffix_cons_iff.mp hrest with heq | hsuffix
    · obtain ⟨rfl, rfl⟩ := List.cons.inj heq
      exact hfirst rfl
    · exact hs rest hsuffix

/-- What is closed stays so, with anything that is closed behind it. -/
theorem Closed.append (hs : Closed s) (ht : Closed t) : Closed (s ++ t) := by
  induction s with
  | nil => exact ht
  | cons c s ih =>
    obtain ⟨hfirst, hs⟩ := closed_cons.mp hs
    exact closed_cons.mpr ⟨fun hc => (hfirst hc).append t, ih hs⟩

theorem closed_of_notMem (h : esc ∉ s) : Closed s := fun _ hsuffix =>
  absurd (hsuffix.subset List.mem_cons_self) h

/-- A control sequence is closed where it is a switch: it has no other escape. -/
theorem IsSequence.closed_append {a : List Char} (h : IsSequence a) (hswitches : Switches (a ++ t))
    (ht : Closed t) : Closed (a ++ t) := by
  obtain ⟨r, rfl, hr, -⟩ := h
  exact closed_cons.mpr ⟨fun _ => hswitches, (closed_of_notMem hr).append ht⟩

/-- **A styled text is switched on and off.** -/
theorem closed_segment {s : Segment} (h : esc ∉ s.text.toList) :
    Closed (s.render true).toList := by
  obtain ⟨style, text⟩ := s
  cases style with
  | none => exact closed_of_notMem h
  | some style =>
    change Closed (style.code ++ text ++ Style.reset).toList
    rw [String.toList_append, String.toList_append]
    have hreset : Closed (Style.reset.toList ++ []) :=
      isSequence_reset.closed_append (Or.inl (List.prefix_append ..)) closed_nil
    rw [List.append_nil] at hreset
    rw [List.append_assoc]
    refine (isSequence_code style).closed_append ?_ ((closed_of_notMem h).append hreset)
    refine Or.inr ⟨style, text.toList, [], ?_, h⟩
    rw [List.append_nil, List.append_assoc]

theorem closed_line {line : List Segment} (h : ∀ s ∈ line, esc ∉ s.text.toList) :
    Closed (line.flatMap fun s => (s.render true).toList) := by
  induction line with
  | nil => exact closed_nil
  | cons s line ih =>
    obtain ⟨hs, hline⟩ := List.forall_mem_cons.mp h
    exact (closed_segment hs).append (ih hline)

/-- **Lines without escapes of their own are closed when they are written.** -/
theorem closed_written {lines : List (List Segment)} (h : EscapeFree lines) :
    Closed (written true lines) := by
  induction lines with
  | nil => exact closed_nil
  | cons line lines ih =>
    obtain ⟨hfirst, hrest⟩ := List.forall_mem_cons.mp h
    cases lines with
    | nil =>
      rw [written_singleton]
      exact closed_line hfirst
    | cons next lines =>
      rw [written_cons_cons]
      refine (closed_line hfirst).append (closed_cons.mpr ⟨?_, ih hrest⟩)
      exact fun hfeed => absurd hfeed (by decide)

/-- **Every style that is switched on is switched off**, before anything else is done to it. -/
theorem Closed.reset_of_code {style : Style} (h : Closed (s ++ (style.code.toList ++ t))) :
    ∃ text rest, t = text ++ Style.reset.toList ++ rest ∧ esc ∉ text := by
  obtain ⟨r, hcode, -, -⟩ := isSequence_code style
  have hswitches : Switches (style.code.toList ++ t) := by
    rw [hcode] at h ⊢
    exact h _ (List.suffix_append s _)
  -- No code is the reset, nor the start of another code.
  rcases hswitches with ⟨u, hu⟩ | ⟨style', text, rest, heq, htext⟩
  · have hsame := (isSequence_reset.append_inj (isSequence_code style) hu).1
    cases style <;> exact absurd hsame (by decide)
  · rw [List.append_assoc, List.append_assoc] at heq
    obtain ⟨-, rfl⟩ := (isSequence_code style).append_inj (isSequence_code style') heq
    exact ⟨text, rest, (List.append_assoc ..).symm, htext⟩

/-! ## 4. The texts of a diagnostic -/

/-- No text that a diagnostic shows has an escape: the source, what the diagnostic says, the files
and messages of its labels, and its notes. -/
structure Diagnostic.EscapeFree (source : Source) (d : Diagnostic) : Prop where
  content : esc ∉ source.content
  code : esc ∉ d.code.toList
  message : esc ∉ d.message.toList
  files : ∀ l ∈ d.labels, esc ∉ l.span.file.toList
  labels : ∀ l ∈ d.labels, esc ∉ l.message.toList
  notes : ∀ n ∈ d.notes, esc ∉ n.toList

/-- A number is written in digits, with a minus before it if it is negative. -/
theorem mem_toString {n : Int} {c : Char} (h : c ∈ (toString n).toList) :
    c.isDigit = true ∨ c = '-' := by
  have hdigit : ∀ {m : Nat}, c ∈ m.repr.toList → c.isDigit = true := fun hmem =>
    Nat.isDigit_of_mem_toDigits (by decide) (by decide) (Nat.toList_repr ▸ hmem)
  cases n with
  | ofNat m => exact Or.inl (hdigit h)
  | negSucc m =>
    have hneg : (toString (Int.negSucc m)).toList = '-' :: (m + 1).repr.toList :=
      String.toList_append
    rw [hneg] at h
    rcases List.mem_cons.mp h with rfl | h
    · exact Or.inr rfl
    · exact Or.inl (hdigit h)

theorem esc_notMem_toString (n : Int) : esc ∉ (toString n).toList := fun h => by
  rcases mem_toString h with hdigit | hminus
  · exact absurd hdigit (by decide)
  · exact absurd hminus (by decide)

/-- What is shown as a line of the source stands in the source. -/
theorem mem_lineAt {source : Source} {n : Int} {c : Char} (h : c ∈ source.lineAt n) :
    c ∈ source.content := by
  unfold Source.lineAt at h
  split at h
  · cases hline : source.lines[n.toNat - 1]? with
    | none =>
      rw [hline] at h
      cases h
    | some body =>
      rw [hline] at h
      obtain ⟨l, hl, rfl⟩ := List.mem_map.mp (List.mem_of_getElem? hline)
      rw [← Text.flatMap_whole_lines source.content]
      exact List.mem_flatMap.mpr ⟨l, hl, List.mem_append_left _ h⟩
  · cases h

theorem esc_notMem_append {a b : String} (ha : esc ∉ a.toList) (hb : esc ∉ b.toList) :
    esc ∉ (a ++ b).toList := by
  rw [String.toList_append, List.mem_append, not_or]
  exact ⟨ha, hb⟩

theorem esc_notMem_replicate {c : Char} (h : esc ≠ c) (n : Nat) :
    esc ∉ (String.ofList (List.replicate n c)).toList := by
  rw [String.toList_ofList]
  exact fun hmem => h (List.eq_of_mem_replicate hmem)

/-- A line beside the source. -/
theorem escapeFree_gutter {g : String} (line : List Segment) (hg : esc ∉ g.toList)
    (hline : ∀ s ∈ line, esc ∉ s.text.toList) :
    ∀ s ∈ Diagnostic.gutter g ++ line, esc ∉ s.text.toList := by
  refine List.forall_mem_append.mpr ⟨?_, hline⟩
  exact List.forall_mem_cons.mpr ⟨by decide, List.forall_mem_singleton.mpr hg⟩

/-- The lines of a label have no escapes but those of the source, the file and the message. -/
theorem escapeFree_labelLines {source : Source} {l : Label} (hsource : esc ∉ source.content)
    (hfile : esc ∉ l.span.file.toList) (hmessage : esc ∉ l.message.toList) :
    EscapeFree (Diagnostic.labelLines source l) := by
  have hspan : esc ∉ l.span.text.toList :=
    esc_notMem_append (esc_notMem_append (esc_notMem_append
      (esc_notMem_append hfile (by decide)) (esc_notMem_toString _)) (by decide))
      (esc_notMem_toString _)
  have hnumber : esc ∉ (alignRight 4 (toString l.span.startLine) ++ " |").toList :=
    esc_notMem_append (esc_notMem_append (esc_notMem_replicate (by decide) _)
      (esc_notMem_toString _)) (by decide)
  have hshown : esc ∉ (String.ofList (source.lineAt l.span.startLine)).toList := by
    rw [String.toList_ofList]
    exact fun hmem => hsource (mem_lineAt hmem)
  have hbar : esc ∉ "   |".toList := by decide
  refine List.forall_mem_append.mpr ⟨List.forall_mem_cons.mpr ⟨?_, List.forall_mem_cons.mpr ⟨?_,
    List.forall_mem_cons.mpr ⟨?_, List.forall_mem_singleton.mpr ?_⟩⟩⟩, ?_⟩
  · exact escapeFree_gutter _ (by decide)
      (List.forall_mem_singleton.mpr (esc_notMem_append (by decide) hspan))
  · exact escapeFree_gutter [] hbar nofun
  · exact escapeFree_gutter _ hnumber
      (List.forall_mem_singleton.mpr (esc_notMem_append (by decide) hshown))
  · exact escapeFree_gutter _ hbar (List.forall_mem_cons.mpr
      ⟨esc_notMem_append (by decide) (esc_notMem_replicate (by decide) _),
        List.forall_mem_singleton.mpr (esc_notMem_replicate (by decide) _)⟩)
  · split
    · exact nofun
    · exact List.forall_mem_singleton.mpr (escapeFree_gutter _ hbar
        (List.forall_mem_cons.mpr ⟨by decide, List.forall_mem_singleton.mpr hmessage⟩))

/-- **The lines of a diagnostic have no escapes but those of its texts.** -/
theorem Diagnostic.EscapeFree.lines {source : Source} {d : Diagnostic} (h : d.EscapeFree source) :
    Literals.EscapeFree (d.lines source) := by
  have hname : esc ∉ d.severity.name.toList := by
    cases d.severity
    decide
  refine List.forall_mem_cons.mpr ⟨List.forall_mem_cons.mpr ⟨?_, List.forall_mem_singleton.mpr ?_⟩,
    List.forall_mem_append.mpr ⟨fun line hline => ?_, List.forall_mem_map.mpr fun note hnote => ?_⟩⟩
  · exact esc_notMem_append (esc_notMem_append (esc_notMem_append hname (by decide)) h.code)
      (by decide)
  · exact esc_notMem_append (by decide) h.message
  · obtain ⟨l, hl, hline⟩ := List.mem_flatMap.mp hline
    exact escapeFree_labelLines h.content (h.files l hl) (h.labels l hl) line hline
  · exact escapeFree_gutter _ (by decide)
      (List.forall_mem_singleton.mpr (esc_notMem_append (by decide) (h.notes note hnote)))

/-- **Colour is decoration only.**  The coloured rendering of a diagnostic without escapes of its
own is the other one where the control sequences are taken out, and in it every style that is
switched on is switched off again before any other sequence: an escape belongs to a style's code or
to the reset, and behind a code there is a reset. -/
theorem Diagnostic.plain_render {source : Source} {d : Diagnostic} (h : d.EscapeFree source) :
    plain (d.render source true) = d.render source false ∧
      Closed (d.render source true).toList ∧
      ∀ (style : Style) (before after : List Char),
        (d.render source true).toList = before ++ (style.code.toList ++ after) →
          ∃ text rest, after = text ++ Style.reset.toList ++ rest ∧ esc ∉ text := by
  have hclosed : Closed (d.render source true).toList := by
    rw [toList_render]
    exact closed_written h.lines
  refine ⟨?_, hclosed, fun style before after heq => Closed.reset_of_code (heq ▸ hclosed)⟩
  rw [plain, toList_render, strip_written h.lines, ← toList_render, String.ofList_toList]

/-- A list that is closed by the wrong bracket. -/
def wrongBracket : Source :=
  .ofString "x.lit" "[1, 2)"

/-- What is said about the bracket, with a message beside it and a note. -/
def expectedBracket : Diagnostic :=
  ⟨.error, "E200", "expected ']'", [⟨⟨"x.lit", 1, 6, 1, 6⟩, "here"⟩], ["lists close with ']'"]⟩

theorem Diagnostic.plain_render_bracket :
    expectedBracket.EscapeFree wrongBracket ∧
      plain (expectedBracket.render wrongBracket true) = expectedBracket.render wrongBracket false ∧
      Closed (expectedBracket.render wrongBracket true).toList := by
  have hfree : expectedBracket.EscapeFree wrongBracket :=
    ⟨by decide, by decide, by decide, by decide, by decide, by decide⟩
  obtain ⟨hplain, hclosed, -⟩ := plain_render hfree
  exact ⟨hfree, hplain, hclosed⟩

end Literals
