/-
# The line that a diagnostic shows

A location counts line feeds, and the line of that number is looked up among lines that end at more
characters than that (`Text.isLineBreak`).  **The two agree where only line feeds break the text
before the offset**, alone or behind a carriage return: then the line has the character at the column
(`Text.shownAt_of_onlyLineFeeds`).  After any other break more lines than line feeds lie before the
offset (`Text.count_lt_length_finished_or`), and what is shown is a line that ended before it.
-/
import Mathlib.Data.List.TakeWhile
import Literals.Source

namespace Literals

namespace Text

variable {c d e : Char} {s t before after : List Char}

/-! ## 1. Cutting a text at a line break -/

/-- Behind a character that is no line break the first line goes on. -/
theorem lines_plain (he : isLineBreak e = false) (s : List Char) :
    lines (e :: s) = Line.pushFirst e (lines s) := by
  rw [lines]
  · rw [if_neg (Bool.eq_false_iff.mp he)]
  · rintro s rfl rfl
    cases he

/-- Behind a line break a new line begins, unless the two are a carriage return and a line feed. -/
theorem lines_break (he : isLineBreak e = true) (h : ¬ (e = '\r' ∧ s.head? = some '\n')) :
    lines (e :: s) = ⟨[], [e]⟩ :: lines s := by
  rw [lines]
  · rw [if_pos he]
  · rintro s rfl rfl
    exact h ⟨rfl, rfl⟩

theorem not_pair_of_forall (h : ∀ t, e = '\r' → s = '\n' :: t → False) :
    ¬ (e = '\r' ∧ s.head? = some '\n') := by
  rintro ⟨he, hhead⟩
  obtain ⟨t, ht⟩ := List.head?_eq_some_iff.mp hhead
  exact h t he ht

theorem not_pair_append (hc : isLineBreak c = false) (h : ¬ (e = '\r' ∧ s.head? = some '\n')) :
    ¬ (e = '\r' ∧ (s ++ c :: t).head? = some '\n') := by
  rintro ⟨he, hhead⟩
  cases s with
  | nil =>
    obtain rfl := Option.some.inj hhead
    cases hc
  | cons d s => exact h ⟨he, hhead⟩

/-! ## 2. Where only line feeds break the text -/

/-- Every line break is a line feed, or a carriage return right before one. -/
def OnlyLineFeeds (s : List Char) : Prop :=
  ∀ i c, s[i]? = some c → isLineBreak c = true → c = '\n' ∨ c = '\r' ∧ s[i + 1]? = some '\n'

theorem onlyLineFeeds_cons :
    OnlyLineFeeds (e :: s) ↔
      (isLineBreak e = true → e = '\n' ∨ e = '\r' ∧ s.head? = some '\n') ∧ OnlyLineFeeds s := by
  rw [List.head?_eq_getElem?]
  constructor
  · exact fun h => ⟨h 0 e rfl, fun i => h (i + 1)⟩
  · rintro ⟨hhead, htail⟩ i c hi
    cases i with
    | zero =>
      obtain rfl := Option.some.inj hi
      exact hhead
    | succ i => exact htail i c hi

instance decidableOnlyLineFeeds : (s : List Char) → Decidable (OnlyLineFeeds s)
  | [] => isTrue nofun
  | _ :: s =>
    have := decidableOnlyLineFeeds s
    decidable_of_iff _ onlyLineFeeds_cons.symm

/-- How many characters stand behind the last line feed. -/
def column (s : List Char) : Nat :=
  (s.reverse.takeWhile (· ≠ '\n')).length

theorem column_of_notMem (h : '\n' ∉ s) : column s = s.length := by
  rw [column, List.takeWhile_eq_self_iff.mpr, List.length_reverse]
  intro c hc
  have hne : c ≠ '\n' := by
    rintro rfl
    exact h (List.mem_reverse.mp hc)
  exact decide_eq_true hne

/-- Text before a line feed does not count. -/
theorem column_append_lineFeed (s t : List Char) : column (s ++ '\n' :: t) = column t := by
  have hfeed : ('\n' :: s.reverse).takeWhile (· ≠ '\n') = [] := rfl
  rw [column, List.reverse_append, List.reverse_cons, List.append_assoc, List.singleton_append,
    List.takeWhile_append, hfeed, List.append_nil, column]
  split
  next h => rw [h]
  next => rfl

theorem column_cons_of_mem (h : '\n' ∈ s) (e : Char) : column (e :: s) = column s := by
  obtain ⟨u, v, rfl⟩ := List.append_of_mem h
  rw [← List.cons_append, column_append_lineFeed, column_append_lineFeed]

/-- The line with as many line feeds before it as the text before the character has this character
at its place behind the last of them. -/
def ShownAt (c : Char) (before after : List Char) : Prop :=
  ∃ l, (lines (before ++ c :: after))[before.count '\n']? = some l ∧
    l.body[column before]? = some c

theorem shownAt_nil (hc : isLineBreak c = false) : ShownAt c [] after := by
  rw [ShownAt, List.nil_append, lines_plain hc]
  cases lines after with
  | nil => exact ⟨_, rfl, rfl⟩
  | cons l ls => exact ⟨_, rfl, rfl⟩

/-- A line that ends at a line feed is one more of both. -/
theorem ShownAt.behind {l : Line} {u : List Char} (hu : '\n' ∉ u)
    (hlines : lines (u ++ '\n' :: (before ++ c :: after)) = l :: lines (before ++ c :: after))
    (h : ShownAt c before after) : ShownAt c (u ++ '\n' :: before) after := by
  obtain ⟨m, hm, hchar⟩ := h
  have hcount : (u ++ '\n' :: before).count '\n' = before.count '\n' + 1 := by
    rw [List.count_append, List.count_eq_zero_of_not_mem hu, List.count_cons_self, Nat.zero_add]
  refine ⟨m, ?_, ?_⟩
  · rw [List.append_assoc, List.cons_append, hlines, hcount, List.getElem?_cons_succ]
    exact hm
  · rw [column_append_lineFeed]
    exact hchar

/-- A character in front moves what is on its own line by one place, and no line. -/
theorem ShownAt.plain (he : isLineBreak e = false) (h : ShownAt c before after) :
    ShownAt c (e :: before) after := by
  obtain ⟨m, hm, hchar⟩ := h
  have hne : e ≠ '\n' := by
    rintro rfl
    cases he
  have hcount : (e :: before).count '\n' = before.count '\n' := List.count_cons_of_ne hne
  rw [ShownAt, List.cons_append, lines_plain he, hcount]
  obtain ⟨l, ls, hls⟩ : ∃ l ls, lines (before ++ c :: after) = l :: ls :=
    List.exists_cons_of_ne_nil (by rintro hnil; rw [hnil] at hm; cases hm)
  rw [hls] at hm ⊢
  by_cases hmem : '\n' ∈ before
  · obtain ⟨k, hk⟩ := Nat.exists_eq_add_one.mpr (List.count_pos_iff.mpr hmem)
    rw [hk] at hm ⊢
    exact ⟨m, hm, (column_cons_of_mem hmem e).symm ▸ hchar⟩
  · have hmem' : '\n' ∉ e :: before := fun hm' => (List.mem_cons.mp hm').elim hne.symm hmem
    rw [List.count_eq_zero_of_not_mem hmem] at hm ⊢
    obtain rfl := Option.some.inj hm
    refine ⟨_, rfl, ?_⟩
    rw [column_of_notMem hmem] at hchar
    rw [column_of_notMem hmem', List.length_cons]
    exact hchar

/-- **Behind line feeds alone the line has the character at its place.** -/
theorem shownAt_of_onlyLineFeeds (hc : isLineBreak c = false) (h : OnlyLineFeeds before) :
    ShownAt c before after := by
  -- The cases are those of the cutting: the end, a carriage return with its line feed, a line break
  -- of one character, and any other character.
  induction before using lines.induct with
  | case1 => exact shownAt_nil hc
  | case2 rest ih =>
    refine ShownAt.behind (u := ['\r']) (by decide) rfl (ih ?_)
    exact (onlyLineFeeds_cons.mp (onlyLineFeeds_cons.mp h).2).2
  | case3 e rest hpair he ih =>
    obtain ⟨hbreak, hrest⟩ := onlyLineFeeds_cons.mp h
    obtain rfl := (hbreak he).resolve_right (not_pair_of_forall hpair)
    exact ShownAt.behind (u := []) (by decide) (lines_break rfl (by simp)) (ih hrest)
  | case4 e rest hpair he ih =>
    exact (ih (onlyLineFeeds_cons.mp h).2).plain (Bool.eq_false_iff.mpr he)

/-! ## 3. Other line breaks -/

/-- The lines of a text that a break ends. -/
def finished (s : List Char) : List Line :=
  (lines s).takeWhile fun l => l.ending ≠ []

theorem finished_plain (he : isLineBreak e = false) (s : List Char) :
    finished (e :: s) = (finished s).modifyHead fun l => ⟨e :: l.body, l.ending⟩ := by
  rw [finished, finished, lines_plain he]
  cases lines s with
  | nil => rfl
  | cons l ls =>
    simp only [Line.pushFirst, List.takeWhile_cons]
    split <;> rfl

theorem finished_break (he : isLineBreak e = true) (h : ¬ (e = '\r' ∧ s.head? = some '\n')) :
    finished (e :: s) = ⟨[], [e]⟩ :: finished s := by
  rw [finished, lines_break he h]
  rfl

/-- They are the first lines however the text goes on, but for a line feed. -/
theorem finished_prefix (hd : isLineBreak d = false) (before after : List Char) :
    finished before <+: lines (before ++ d :: after) := by
  induction before using lines.induct with
  | case1 => exact List.nil_prefix
  | case2 rest ih => exact (List.prefix_cons_inj _).mpr ih
  | case3 e rest hpair he ih =>
    have hlone := not_pair_of_forall hpair
    rw [finished_break he hlone, List.cons_append, lines_break he (not_pair_append hd hlone)]
    exact (List.prefix_cons_inj _).mpr ih
  | case4 e rest hpair he ih =>
    have he := Bool.eq_false_iff.mpr he
    rw [finished_plain he, List.cons_append, lines_plain he]
    obtain ⟨more, hmore⟩ := ih
    rw [← hmore]
    cases finished rest with
    | nil => exact List.nil_prefix
    | cons l ls => exact ⟨more, rfl⟩

/-- **Another line break makes more lines than there are line feeds.** -/
theorem count_lt_length_finished_or (s : List Char) :
    s.count '\n' < (finished s).length ∨
      OnlyLineFeeds s ∧ s.count '\n' = (finished s).length := by
  induction s using lines.induct with
  | case1 => exact Or.inr ⟨nofun, rfl⟩
  | case2 rest ih =>
    have hfinished : finished ('\r' :: '\n' :: rest) = ⟨[], ['\r', '\n']⟩ :: finished rest := rfl
    have hcount : ('\r' :: '\n' :: rest).count '\n' = rest.count '\n' + 1 := by simp
    rw [hfinished, hcount, List.length_cons]
    rcases ih with hlt | ⟨honly, heq⟩
    · exact Or.inl (Nat.succ_lt_succ hlt)
    · refine Or.inr ⟨?_, congrArg (· + 1) heq⟩
      exact onlyLineFeeds_cons.mpr ⟨fun _ => Or.inr ⟨rfl, rfl⟩,
        onlyLineFeeds_cons.mpr ⟨fun _ => Or.inl rfl, honly⟩⟩
  | case3 e rest hpair he ih =>
    rw [finished_break he (not_pair_of_forall hpair), List.length_cons]
    by_cases hfeed : e = '\n'
    · subst hfeed
      rw [List.count_cons_self]
      rcases ih with hlt | ⟨honly, heq⟩
      · exact Or.inl (Nat.succ_lt_succ hlt)
      · exact Or.inr ⟨onlyLineFeeds_cons.mpr ⟨fun _ => Or.inl rfl, honly⟩, congrArg (· + 1) heq⟩
    · rw [List.count_cons_of_ne hfeed]
      rcases ih with hlt | ⟨-, heq⟩
      · exact Or.inl (Nat.lt_succ_of_lt hlt)
      · exact Or.inl (Nat.lt_succ_of_le heq.le)
  | case4 e rest hpair he ih =>
    have he := Bool.eq_false_iff.mpr he
    have hne : e ≠ '\n' := by
      rintro rfl
      cases he
    rw [finished_plain he, List.length_modifyHead, List.count_cons_of_ne hne]
    refine ih.imp_right fun ⟨honly, heq⟩ => ⟨?_, heq⟩
    exact onlyLineFeeds_cons.mpr ⟨fun hbreak => absurd hbreak (Bool.eq_false_iff.mp he), honly⟩

/-- Behind another line break the line does not depend on the character. -/
theorem getElem?_lines_of_not_onlyLineFeeds (hc : isLineBreak c = false)
    (hd : isLineBreak d = false) (h : ¬ OnlyLineFeeds before) :
    (lines (before ++ d :: after))[before.count '\n']? =
      (lines (before ++ c :: after))[before.count '\n']? := by
  have hlt := (count_lt_length_finished_or before).resolve_right fun hor => h hor.1
  obtain ⟨more, hmore⟩ := finished_prefix hc before after
  obtain ⟨more', hmore'⟩ := finished_prefix hd before after
  rw [← hmore, ← hmore', List.getElem?_append_left hlt, List.getElem?_append_left hlt]

end Text

/-! ## 4. Sources -/

namespace Source

/-- The source with another character at an offset. -/
def put (s : Source) (o : Nat) (c : Char) : Source :=
  ⟨s.filename, s.content.set o c⟩

/-- The line that is shown for an offset has the character at the column of the offset. -/
def Shows (s : Source) (o : Nat) (c : Char) : Prop :=
  (s.lineAt (s.location o).1)[(s.location o).2 - 1]? = some c

instance (s : Source) (o : Nat) (c : Char) : Decidable (s.Shows o c) :=
  inferInstanceAs (Decidable (_ = _))

variable {s : Source} {o : Nat} {c : Char}

theorem location_of_le (h : o ≤ s.content.length) :
    s.location o = ((s.content.take o).count '\n' + 1, Text.column (s.content.take o) + 1) := by
  rw [location, clamp, Int.toNat_natCast, Nat.min_eq_left h]
  rfl

theorem lineAt_succ (k : Nat) :
    s.lineAt ((k + 1 : Nat) : Int) = (((Text.lines s.content)[k]?).map Text.Line.body).getD [] := by
  rw [lineAt, if_pos (by omega), lines, List.getElem?_map, Int.toNat_natCast, Nat.add_sub_cancel]

/-- A text around one of its characters. -/
theorem eq_append_of_getElem? {s : List Char} (h : s[o]? = some c) :
    s = s.take o ++ c :: s.drop (o + 1) := by
  obtain ⟨ho, hc⟩ := List.getElem?_eq_some_iff.mp h
  rw [← hc, ← List.drop_eq_getElem_cons ho, List.take_append_drop]

theorem content_put (h : o < s.content.length) (d : Char) :
    (s.put o d).content = s.content.take o ++ d :: s.content.drop (o + 1) := by
  rw [put, List.set_eq_take_append_cons_drop, if_pos h]

/-- **A diagnostic shows the offending line** for every character that is no line break, as long as
only line feeds break the text before it, alone or behind a carriage return.  Behind any other line
break the line that is shown is the same whatever stands at the offset. -/
theorem shows_or_fixed (h : s.content[o]? = some c) (hc : Text.isLineBreak c = false) :
    (Text.OnlyLineFeeds (s.content.take o) → s.Shows o c) ∧
      (¬ Text.OnlyLineFeeds (s.content.take o) → ∀ d, Text.isLineBreak d = false →
        (s.put o d).lineAt (s.location o).1 = s.lineAt (s.location o).1) := by
  have ho : o < s.content.length := (List.getElem?_eq_some_iff.mp h).1
  have hcontent := eq_append_of_getElem? h
  rw [Shows, location_of_le ho.le]
  refine ⟨fun honly => ?_, fun hother d hd => ?_⟩
  · obtain ⟨l, hl, hchar⟩ := Text.shownAt_of_onlyLineFeeds hc honly
    rw [← hcontent] at hl
    rw [lineAt_succ, hl, Nat.add_sub_cancel]
    exact hchar
  · rw [lineAt_succ, lineAt_succ, content_put ho,
      Text.getElem?_lines_of_not_onlyLineFeeds hc hd hother, ← hcontent]

/-- Behind a carriage return and a line feed the character is shown. -/
theorem shows_behind_lineFeed :
    (Source.mk "a.lit" ['[', '\r', '\n', '1', ' ', '2', ']']).content[5]? = some '2' ∧
      Text.isLineBreak '2' = false ∧ Text.OnlyLineFeeds ['[', '\r', '\n', '1', ' '] ∧
      (Source.mk "a.lit" ['[', '\r', '\n', '1', ' ', '2', ']']).Shows 5 '2' :=
  ⟨rfl, rfl, by decide, (shows_or_fixed rfl rfl).1 (by decide)⟩

/-- **Behind a carriage return alone it is not**: the line that is shown ends there. -/
theorem not_shows_behind_carriageReturn :
    (Source.mk "a.lit" ['a', '\r', 'b']).content[2]? = some 'b' ∧
      Text.isLineBreak 'b' = false ∧ (Source.mk "a.lit" ['a', '\r', 'b']).location 2 = (1, 3) ∧
      (Source.mk "a.lit" ['a', '\r', 'b']).lineAt 1 = ['a'] ∧
      ¬ (Source.mk "a.lit" ['a', '\r', 'b']).Shows 2 'b' := by
  decide

end Source

end Literals
