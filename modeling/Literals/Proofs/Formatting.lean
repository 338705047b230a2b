/-
# Formatting what was formatted

`format` prints the canonical text of a literal with a line feed behind it, and `format --check`
accepts it again, but only within the limits: **a canonical text may be longer than the literal, and
it may nest deeper**, and the limits are meant for every input.  So a text that was printed is
accepted exactly where it fits them and is settled (`formatCheck_iff_fits`).

On a stream that takes no control sequences the text is that of another tree than the one that was
read (`Context.shown`).
-/
import Mathlib.Data.List.DropRight
import Literals.Proofs.RoundTrip
import Literals.Proofs.Runs
import Literals.Proofs.Settled
import Literals.Proofs.Unstyled

namespace Literals

open Number Grammar Reader

/-! ## 1. The end of a text -/

/-- No literal ends with a line feed. -/
theorem Grammar.Item.exists_last {w : List Char} {x : Node} (h : Item w x) :
    ∃ u c, w = u ++ [c] ∧ c ≠ '\n' := by
  have hrun : ∀ {u : List Char}, u ≠ [] → (∀ c ∈ u, isFloatChar c = true) →
      ∃ v c, u = v ++ [c] ∧ c ≠ '\n' := by
    intro u hne hu
    obtain ⟨v, c, rfl⟩ := u.eq_nil_or_concat'.resolve_left hne
    refine ⟨v, c, rfl, ?_⟩
    rintro rfl
    exact absurd (hu '\n' (by simp)) (by decide)
  cases h with
  | noneLiteral => exact ⟨['N', 'o', 'n'], 'e', rfl, by decide⟩
  | trueLiteral => exact ⟨['T', 'r', 'u'], 'e', rfl, by decide⟩
  | falseLiteral => exact ⟨['F', 'a', 'l', 's'], 'e', rfl, by decide⟩
  | @string q s hq _ => exact ⟨q :: s, q, rfl, by rcases hq with rfl | rfl <;> decide⟩
  | @integer minus ds hds =>
    obtain ⟨v, c, rfl, hc⟩ := hrun hds.1 fun c hc => by
      simp [isFloatChar, isMantissaChar, hds.2 c hc]
    exact ⟨minusText minus ++ v, c, (List.append_assoc ..).symm, hc⟩
  | @float y hy _ hmark =>
    refine hrun ?_ (Numeral.isFloatChar_of_mem_text hy)
    rintro hnil
    obtain ⟨c, hc, -⟩ := hmark
    rw [hnil] at hc
    cases hc
  | imaginary _ => exact ⟨_, 'j', rfl, by decide⟩
  | @complex y z _ _ _ => exact ⟨'(' :: (y.text ++ (z.text ++ ['j'])), ')', by simp, by decide⟩
  | @singleton v u _ _ _ => exact ⟨'(' :: (v ++ ',' :: u), ')', by simp, by decide⟩
  | @tuple v u _ _ _ _ => exact ⟨'(' :: (v ++ ',' :: u), ')', by simp, by decide⟩
  | @tupleComma v u u' _ _ _ _ _ =>
    exact ⟨'(' :: (v ++ ',' :: (u ++ ',' :: u')), ')', by simp, by decide⟩
  | _ => exact ⟨_ :: _, _, rfl, by decide⟩

namespace Command

/-- A single line feed is taken off. -/
theorem withoutFinalFeeds_feed {w : List Char} {x : Node} (h : Item w x) :
    withoutFinalFeeds (w ++ ['\n']) = w := by
  obtain ⟨u, c, rfl, hc⟩ := h.exists_last
  change (u ++ [c] ++ ['\n']).rdropWhile (· == '\n') = u ++ [c]
  rw [List.rdropWhile_concat_pos _ _ _ rfl, List.rdropWhile_concat_neg _ _ _ (by simpa using hc)]

/-! ## 2. Reading what was printed -/

/-- A printed text is within the limits of the settings. -/
structure Fits (settings : Settings) (text : List Char) : Prop where
  length : ∀ n ∈ settings.maxLength, (Text.Utf8.encode text).length ≤ n
  depth : ∀ n ∈ settings.maxDepth, ∀ i d, openedAt? text i = some d → d ≤ n

variable {c : Context} {n : Node} {name : String} {content : List Char} {t : Tree}

/-- The line that shows a tree is read as the reread tree. -/
theorem read_line (h : n.Written Scalar.Readable) :
    read (String.ofList (n.chars ++ ['\n'])) none = .ok ⟨n.reread⟩ := by
  have hfeed : Blank ['\n'] := fun d hd => by
    obtain rfl := List.mem_singleton.mp hd
    rfl
  have hexpr := Expr.blanks (u := []) nofun (item_of_written h) hfeed
  exact read_of_expr (by rwa [String.toList_ofList])

theorem shallow_iff_depth {text : List Char} : Shallow c.nestingLimit (.outside 0) text ↔
    ∀ k ∈ c.settings.maxDepth, ∀ i d, openedAt? text i = some d → d ≤ k := by
  rw [shallow_iff]
  unfold Context.nestingLimit Allows
  cases c.settings.maxDepth with
  | none => simp
  | some k => simp

/-- **A printed line is read exactly where it fits the settings.** -/
theorem reads_line_iff (h : n.Written Scalar.Readable) :
    Reads c ⟨name, Text.Utf8.encode (n.chars ++ ['\n'])⟩ content t ↔
      content = n.chars ++ ['\n'] ∧ t = ⟨n.reread⟩ ∧ Fits c.settings (n.chars ++ ['\n']) := by
  have hdecode := Text.Utf8.decode_encode (n.chars ++ ['\n'])
  constructor
  · rintro ⟨hlength, hdecoded, hread⟩
    obtain rfl := Except.ok.inj (hdecode.symm.trans hdecoded)
    obtain ⟨rfl, hshallow⟩ := (read_limited_iff (read_line h)).mp hread
    rw [String.toList_ofList] at hshallow
    exact ⟨rfl, rfl, hlength, shallow_iff_depth.mp hshallow⟩
  · rintro ⟨rfl, rfl, hfits⟩
    refine ⟨hfits.length, hdecode, (read_limited_iff (read_line h)).mpr ⟨rfl, ?_⟩⟩
    rw [String.toList_ofList]
    exact shallow_iff_depth.mpr hfits.depth

/-! ## 3. The two forms of the command -/

variable {input : Input}

/-- Either form succeeds only where the input is read. -/
theorem exists_reads_of_formatInput {checkOnly : Bool}
    (h : (formatInput c checkOnly input).2 = true) : ∃ content t, Reads c input content t := by
  unfold formatInput at h
  rcases hread : readInput c input with ⟨u, _ | ⟨t, source⟩⟩
  · rw [hread] at h
    cases h
  · obtain ⟨content, hreads, -⟩ := readInput_eq_some_iff.mp (congrArg Prod.snd hread)
    exact ⟨content, t, hreads⟩

/-- Where the input is read, its canonical text is shown. -/
theorem formatInput_show (h : Reads c input content t) : (formatInput c false input).2 = true ∧
    (formatInput c false input).1.output = (c.outLine t.root.text).output := by
  have hsilent := (readInput_cases c input).1
  have hsome := readInput_of_reads h
  unfold formatInput
  rcases hread : readInput c input with ⟨u, o⟩
  rw [hread] at hsilent hsome
  obtain rfl : o = _ := hsome
  refine ⟨rfl, ?_⟩
  change u.output ++ (c.outLine t.root.text).output = _
  rw [show u.output = "" from hsilent, String.empty_append]

/-- A check succeeds where the input is read and has the canonical text already. -/
theorem formatInput_check_iff : (formatInput c true input).2 = true ↔
    ∃ content t, Reads c input content t ∧ withoutFinalFeeds content = t.root.chars := by
  have hcheck : ∀ {content t}, Reads c input content t →
      ((formatInput c true input).2 = true ↔ withoutFinalFeeds content = t.root.chars) := by
    intro content t hreads
    have hsome := readInput_of_reads hreads
    unfold formatInput
    rcases hread : readInput c input with ⟨u, o⟩
    rw [hread] at hsome
    obtain rfl : o = _ := hsome
    dsimp only
    rw [if_pos rfl]
    split
    next heq => exact iff_of_true rfl heq
    next hne => exact iff_of_false Bool.false_ne_true hne
  constructor
  · intro h
    obtain ⟨content, t, hreads⟩ := exists_reads_of_formatInput h
    exact ⟨content, t, hreads, (hcheck hreads).mp h⟩
  · rintro ⟨content, t, hreads, heq⟩
    exact (hcheck hreads).mpr heq

/-- **A printed line passes the check exactly where it fits the settings and is settled.** -/
theorem check_line_iff (h : n.Written Scalar.Readable) :
    (formatInput c true ⟨name, Text.Utf8.encode (n.chars ++ ['\n'])⟩).2 = true ↔
      Fits c.settings (n.chars ++ ['\n']) ∧ n.Settled := by
  rw [formatInput_check_iff]
  constructor
  · rintro ⟨content, t, hreads, heq⟩
    obtain ⟨rfl, rfl, hfits⟩ := (reads_line_iff h).mp hreads
    rw [withoutFinalFeeds_feed (item_of_written h)] at heq
    exact ⟨hfits, h.chars_reread_iff.mp heq.symm⟩
  · rintro ⟨hfits, hsettled⟩
    refine ⟨_, _, (reads_line_iff h).mpr ⟨rfl, rfl, hfits⟩, ?_⟩
    rw [withoutFinalFeeds_feed (item_of_written h)]
    exact (h.chars_reread_iff.mpr hsettled).symm

/-! ## 4. What is shown -/

/-- The tree whose text is shown: where the stream takes no control sequences, the one without
them. -/
def Context.shown (c : Context) (n : Node) : Node :=
  if c.streams.outputKeepsStyle then n else n.unstyled

theorem shown_written (h : n.Written Scalar.Readable) : (c.shown n).Written Scalar.Readable := by
  unfold Context.shown
  split
  · exact h
  · exact h.unstyled

/-- **What is shown is the text of a tree and a line feed.** -/
theorem output_outLine (h : n.Written Scalar.Readable) :
    (c.outLine n.text).output = String.ofList ((c.shown n).chars ++ ['\n']) := by
  have htext : (n.text ++ "\n").toList = n.chars ++ ['\n'] := by
    rw [String.toList_append, toList_text]
    rfl
  have hfeed : Text.Ansi.strip ['\n'] = ['\n'] := by
    rw [Text.Ansi.strip_cons_of_ne (by decide), Text.Ansi.strip]
  unfold Context.outLine Context.out Context.shown
  split
  · rw [← htext, String.ofList_toList]
  · change Text.Ansi.plain (n.text ++ "\n") = _
    rw [Text.Ansi.plain, htext, h.loses, hfeed]

/-- Two trees with one text are read back as one. -/
theorem reread_eq_of_chars_eq {a b : Node} (ha : a.Written Scalar.Readable)
    (hb : b.Written Scalar.Readable) (h : a.chars = b.chars) : a.reread = b.reread := by
  have hread := read_line ha
  rw [h, read_line hb] at hread
  exact (Tree.mk.inj (Except.ok.inj hread)).symm

/-- A tree without a narrow decimal is shown settled, where nothing of its text is taken out. -/
theorem settled_shown (h : n.Built Scalar.Readable) (hn : ¬ n.HoldsNarrow)
    (hchars : (c.shown n).chars = n.chars) : (c.shown n).Settled := by
  have hshown := shown_written (c := c) h.written
  rw [← hshown.chars_reread_iff, reread_eq_of_chars_eq hshown h.written hchars,
    reread_eq_of_not_narrow h hn, hchars]

/-! ## 5. Runs on a power of ten -/

/-- Surroundings with one file. -/
def oneFile (bytes : List UInt8) : World Id where
  workingDirectory := []
  look place := if place = ["a"] then some (.file bytes) else none
  input := []

/-- A run with no more than so many bytes. -/
def bounded (length : Nat) : Context :=
  ⟨⟨false, false, false⟩, ⟨none, some length, true⟩, false⟩

theorem fetch_oneFile (bytes : List UInt8) :
    fetch (oneFile bytes) "a" = .ok ⟨"a", bytes⟩ := by
  have hfile : (oneFile bytes).readFile "a" = .ok bytes := by
    unfold World.readFile World.find
    rw [ofString_letter]
    rfl
  rw [fetch, if_neg (by decide)]
  change (match (oneFile bytes).readFile "a" with | .ok b => _ | .error e => _) = _
  rw [hfile]
  rfl

/-- A power of ten, whose digits are all printed. -/
def power : Node :=
  .scalar (.float (Binary64.ofDecimal false 1 5))

theorem power_chars : power.chars = "100000.0".toList := by
  decide +kernel

theorem reads_power {k : Nat} (hk : 3 ≤ k) :
    Reads (bounded k) ⟨"a", Text.Utf8.encode "1e5".toList⟩ "1e5".toList ⟨power⟩ where
  length := by
    rintro _ ⟨⟩
    exact hk
  decoded := Text.Utf8.decode_encode _
  read := by
    rw [String.ofList_toList, read_eq_result]
    rfl

/-- The line that shows the power of ten. -/
theorem power_line : "100000.0\n".toList = power.chars ++ ['\n'] := by
  rw [power_chars]
  rfl

theorem power_written : power.Written Scalar.Readable :=
  .scalar (Binary64.isNaN_ofDecimal _ _ _)

theorem format_power {k : Nat} (hk : 3 ≤ k) :
    (perform (oneFile (Text.Utf8.encode "1e5".toList)) (bounded k) (.format "a" false)).ending =
      .exit 0 :=
  ending_singleton_iff.mpr ⟨_, fetch_oneFile _, (formatInput_show (reads_power hk)).1⟩

/-! ## 6. Runs on what was printed -/

/-- A run shows the canonical text of what it reads. -/
theorem output_format {w : World Id} {path : String} (hfetch : fetch w path = .ok input)
    (h : Reads c input content t) :
    (perform w c (.format path false)).transcript.output = (c.outLine t.root.text).output := by
  rw [perform, overPaths_singleton hfetch]
  change "" ++ (formatInput c false input).1.output = _
  rw [String.empty_append, (formatInput_show h).2]

/-- **What was printed passes the check exactly where it fits the limits and is settled**, in every
run under the same settings; and it is settled where no decimal of 64 bits was read and nothing was
taken out of the canonical text. -/
theorem formatCheck_iff_fits {w : World Id} {c : Context} {path : String}
    (h : (perform w c (.format path false)).ending = .exit 0) :
    ∃ input content t printed, fetch w path = .ok input ∧ Reads c input content t ∧
      (perform w c (.format path false)).transcript.output = String.ofList printed ∧
      printed = (c.shown t.root).chars ++ ['\n'] ∧
      (∀ (w' : World Id) (c' : Context) (path' name : String), c'.settings = c.settings →
        fetch w' path' = .ok ⟨name, Text.Utf8.encode printed⟩ →
          ((perform w' c' (.format path' true)).ending = .exit 0 ↔
            Fits c.settings printed ∧ (c.shown t.root).Settled)) ∧
      (¬ t.root.HoldsNarrow → printed = t.root.chars ++ ['\n'] → (c.shown t.root).Settled) := by
  obtain ⟨input, hfetch, hok⟩ := ending_singleton_iff.mp h
  obtain ⟨content, t, hreads⟩ := exists_reads_of_formatInput hok
  have hbuilt : t.root.Built Scalar.Readable := (built_of_read hreads.read).mono fun _ hs => hs.1
  have hshown := shown_written (c := c) hbuilt.written
  refine ⟨input, content, t, _, hfetch, hreads, ?_, rfl, ?_, fun hnarrow hprinted => ?_⟩
  · rw [output_format hfetch hreads, output_outLine hbuilt.written]
  · intro w' c' path' name hsettings hfetch'
    rw [perform, ending_singleton_iff, ← hsettings]
    constructor
    · rintro ⟨input', hinput, hcheck⟩
      obtain rfl := Except.ok.inj (hfetch'.symm.trans hinput)
      exact (check_line_iff hshown).mp hcheck
    · intro hfits
      exact ⟨_, hfetch', (check_line_iff hshown).mpr hfits⟩
  · exact settled_shown hbuilt hnarrow (List.append_cancel_right hprinted)

/-- A power of ten is printed, and passes the check, where nine bytes are allowed. -/
theorem formatCheck_power :
    (perform (oneFile (Text.Utf8.encode "1e5".toList)) (bounded 9) (.format "a" false)).ending =
        .exit 0 ∧
      (perform (oneFile (Text.Utf8.encode "100000.0\n".toList)) (bounded 9)
        (.format "a" true)).ending = .exit 0 := by
  have hformat := format_power (k := 9) (by decide)
  obtain ⟨input, content, t, printed, hfetch, hreads, -, hprinted, hcheck, hsettled⟩ :=
    formatCheck_iff_fits hformat
  obtain rfl := Except.ok.inj ((fetch_oneFile _).symm.trans hfetch)
  obtain ⟨rfl, rfl⟩ := (reads_power (by decide)).unique hreads
  have hwide : ¬ power.HoldsNarrow := by
    rintro ⟨d, hd, -⟩
    cases hd
  obtain rfl : printed = "100000.0\n".toList := hprinted.trans power_line.symm
  refine ⟨hformat, (hcheck _ _ _ _ rfl (fetch_oneFile _)).mpr ⟨⟨?_, nofun⟩, ?_⟩⟩
  · rintro _ ⟨⟩
    decide
  · exact hsettled hwide power_line

/-- **A text of three bytes may be printed with nine**, and what is printed is refused where nine
are too many. -/
theorem formatCheck_longer :
    (perform (oneFile (Text.Utf8.encode "1e5".toList)) (bounded 3) (.format "a" false)).ending =
        .exit 0 ∧
      (perform (oneFile (Text.Utf8.encode "1e5".toList)) (bounded 3)
        (.format "a" false)).transcript.output = "100000.0\n" ∧
      (perform (oneFile (Text.Utf8.encode "100000.0\n".toList)) (bounded 3)
        (.format "a" true)).ending ≠ .exit 0 := by
  refine ⟨format_power le_rfl, ?_, fun h => ?_⟩
  · rw [output_format (fetch_oneFile _) (reads_power le_rfl), output_outLine power_written,
      show (bounded 3).shown power = power from rfl, ← power_line, String.ofList_toList]
  · obtain ⟨input, hfetch, hcheck⟩ := ending_singleton_iff.mp h
    obtain rfl := Except.ok.inj ((fetch_oneFile _).symm.trans hfetch)
    rw [power_line] at hcheck
    have hfits := ((check_line_iff power_written).mp hcheck).1.length 3 rfl
    rw [← power_line] at hfits
    exact absurd hfits (by decide)

end Command

end Literals
