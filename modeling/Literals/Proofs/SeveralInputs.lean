/-
# Checking several inputs

A run over several paths fetches and handles them in order.  Only standard input changes under it,
since whoever reads it first takes all of it.  As long as it is asked for once at most, every path
gives what it gives to a run of its own (`fetch_of_unspent`), and **a run over many paths is made of
the runs on each**: their transcripts one after another, and a failure where one of them fails
(`run_overPaths`).
-/
import Literals.Proofs.Runs
import Mathlib.Tactic.Choose

namespace Literals.Command

/-! ## 1. Transcripts one after another -/

namespace Transcript

@[simp] theorem error_append (a b : Transcript) : (a ++ b).error = a.error ++ b.error := rfl

@[simp] theorem error_empty : Transcript.empty.error = "" := rfl

/-- Several transcripts after a first one. -/
def followedBy (u : Transcript) (ts : List Transcript) : Transcript :=
  ts.foldl (· ++ ·) u

/-- What a stream that is written piece by piece has in the end. -/
theorem stream_followedBy {stream : Transcript → String}
    (happend : ∀ a b, stream (a ++ b) = stream a ++ stream b) (u : Transcript)
    (ts : List Transcript) :
    stream (u.followedBy ts) = stream u ++ String.join (ts.map stream) := by
  induction ts generalizing u with
  | nil => simp [followedBy]
  | cons t ts ih =>
    have hnext : u.followedBy (t :: ts) = (u ++ t).followedBy ts := rfl
    rw [hnext, ih, happend, List.map_cons, String.join_cons, String.append_assoc]

end Transcript

/-! ## 2. What a path gives -/

section

variable {files : FileTree} {directory : Place} {input state : List UInt8}

theorem recorded_look (p : Place) :
    World.look (World.recorded files directory) p = pure (files.look p) :=
  rfl

/-- Finding something takes nothing from standard input. -/
theorem exists_walk_recorded (files : FileTree) (directory here : Place) (names : List String) :
    ∃ found, (World.recorded files directory).walk here names = pure found := by
  induction names generalizing here with
  | nil => exact ⟨_, rfl⟩
  | cons name names ih =>
    rw [World.walk]
    split
    · exact ih _
    · rw [recorded_look, pure_bind]
      cases files.look (here ++ [name]) with
      | none => exact ⟨_, rfl⟩
      | some e =>
        cases e with
        | directory => exact ih _
        | file bytes => exact ⟨_, rfl⟩

/-- Nor does reading a file. -/
theorem exists_fetch_recorded (files : FileTree) (directory : Place) {path : String}
    (h : path ≠ "-") : ∃ found, fetch (World.recorded files directory) path = pure found := by
  obtain ⟨found, hfound⟩ := exists_walk_recorded files directory
    (if (WrittenPath.ofString path).absolute then [] else directory)
    (WrittenPath.ofString path).names
  have hfind : (World.recorded files directory).find path = pure found := hfound
  rw [fetch, if_neg h, World.readFile, hfind, pure_bind]
  cases found with
  | error e => exact ⟨_, rfl⟩
  | ok entry => cases entry <;> exact ⟨_, rfl⟩

/-- Whoever reads standard input takes all that is left of it. -/
theorem run_fetch_hyphen (state : List UInt8) :
    (fetch (World.recorded files directory) "-").run state = (.ok ⟨standardInput, state⟩, []) :=
  rfl

/-- The path can be read while all of `input` waits on standard input, and gives `i`. -/
def Gives (files : FileTree) (directory : Place) (input : List UInt8) (path : String)
    (i : Input) : Prop :=
  ((fetch (World.recorded files directory) path).run input).1 = .ok i

/-- The paths to come ask for standard input once at most, and it has not been read if they do. -/
structure Unspent (input state : List UInt8) (paths : List String) : Prop where
  once : paths.count "-" ≤ 1
  whole : "-" ∈ paths → state = input

/-- **A path gives in a run what it gives to a run of its own**, and leaves enough for the paths
after it. -/
theorem fetch_of_unspent {path : String} {paths : List String} {i : Input}
    (h : Unspent input state (path :: paths)) (hgives : Gives files directory input path i) :
    ∃ state', (fetch (World.recorded files directory) path).run state = (.ok i, state') ∧
      Unspent input state' paths := by
  by_cases hpath : path = "-"
  · subst hpath
    obtain rfl := h.whole List.mem_cons_self
    obtain rfl : i = ⟨standardInput, state⟩ := Except.ok.inj (hgives.symm.trans rfl)
    have hcount := h.once
    rw [List.count_cons_self] at hcount
    have hnone : paths.count "-" = 0 := by omega
    exact ⟨[], run_fetch_hyphen state, hnone.le.trans zero_le_one, fun hmem =>
      absurd hmem (List.count_eq_zero.mp hnone)⟩
  · obtain ⟨found, hfound⟩ := exists_fetch_recorded files directory hpath
    rw [Gives, hfound] at hgives
    refine ⟨state, ?_, ?_, fun hmem => h.whole (List.mem_cons_of_mem _ hmem)⟩
    · rw [hfound]
      exact congrArg (·, state) hgives
    · have hcount := h.once
      rwa [List.count_cons_of_ne hpath] at hcount

/-! ## 3. Runs -/

variable {c : Context} {handle : Input → Transcript × Bool} {paths : List String}

/-- One path of a run. -/
theorem run_overPaths_cons {path : String} {i : Input} {state' : List UInt8}
    (h : (fetch (World.recorded files directory) path).run state = (.ok i, state'))
    (u : Transcript) (ok : Bool) :
    (overPaths (World.recorded files directory) handle u ok (path :: paths)).run state =
      (overPaths (World.recorded files directory) handle (u ++ (handle i).1)
        (ok && (handle i).2) paths).run state' := by
  rw [overPaths, StateT.run_bind, h]
  rfl

/-- **A run over several paths handles what each of them gives**, and fails where one is handled
badly. -/
theorem run_overPaths (given : String → Input)
    (hgives : ∀ p ∈ paths, Gives files directory input p (given p))
    (h : Unspent input state paths) (u : Transcript) (ok : Bool) :
    ((overPaths (World.recorded files directory) handle u ok paths).run state).1 =
      ⟨u.followedBy (paths.map fun p => (handle (given p)).1),
        .exit (exitCode (ok && paths.all fun p => (handle (given p)).2))⟩ := by
  -- Standard input changes on the way, so the induction is over every state that leaves enough.
  induction paths generalizing state u ok with
  | nil =>
    rw [List.all_nil, Bool.and_true]
    rfl
  | cons path paths ih =>
    obtain ⟨hpath, hpaths⟩ := List.forall_mem_cons.mp hgives
    obtain ⟨state', hfetch, hunspent⟩ := fetch_of_unspent h hpath
    rw [run_overPaths_cons hfetch, ih hpaths hunspent, List.all_cons, Bool.and_assoc]
    rfl

/-- The report of a check of the paths. -/
def checkReport (files : FileTree) (directory : Place) (input : List UInt8) (c : Context)
    (paths : List String) : Report :=
  ((perform (World.recorded files directory) c (.check paths)).run input).1

theorem checkReport_eq (given : String → Input)
    (hgives : ∀ p ∈ paths, Gives files directory input p (given p))
    (honce : paths.count "-" ≤ 1) :
    checkReport files directory input c paths =
      ⟨Transcript.empty.followedBy (paths.map fun p => (checkInput c (given p)).1),
        .exit (exitCode (paths.all fun p => (checkInput c (given p)).2))⟩ := by
  refine (run_overPaths given hgives ⟨honce, fun _ => rfl⟩ .empty true).trans ?_
  rw [Bool.true_and]

/-- One path is checked as its input. -/
theorem checkReport_singleton {p : String} {i : Input} (h : Gives files directory input p i) :
    checkReport files directory input c [p] =
      ⟨.empty ++ (checkInput c i).1, .exit (exitCode (checkInput c i).2)⟩ := by
  rw [checkReport_eq (fun _ => i) (List.forall_mem_singleton.mpr h)
    List.count_le_length, List.all_cons, List.all_nil, Bool.and_true]
  rfl

/-- **Either stream of a check has what the checks of the single paths write there**, in order. -/
theorem stream_checkReport {stream : Transcript → String}
    (happend : ∀ a b, stream (a ++ b) = stream a ++ stream b) (hempty : stream .empty = "")
    (given : String → Input) (hgives : ∀ p ∈ paths, Gives files directory input p (given p))
    (honce : paths.count "-" ≤ 1) :
    stream (checkReport files directory input c paths).transcript =
      String.join (paths.map fun p =>
        stream (checkReport files directory input c [p]).transcript) := by
  rw [checkReport_eq given hgives honce]
  refine (Transcript.stream_followedBy happend _ _).trans ?_
  rw [hempty, String.empty_append, List.map_map]
  refine congrArg String.join (List.map_congr_left fun p hp => ?_)
  rw [checkReport_singleton (hgives p hp), happend, hempty, String.empty_append]
  rfl

theorem ending_cases (ok : Bool) :
    Ending.exit (exitCode ok) = .exit 0 ∨ Ending.exit (exitCode ok) = .exit 1 := by
  cases ok with
  | true => exact Or.inl rfl
  | false => exact Or.inr rfl

theorem ending_eq_failure_iff {ok : Bool} :
    Ending.exit (exitCode ok) = .exit 1 ↔ ok = false := by
  cases ok with
  | true => exact iff_of_false (fun h => nomatch Ending.exit.inj h) nofun
  | false => exact iff_of_true rfl rfl

/-- **Checking many inputs is checking each of them.**  What is written on either stream is what the
runs on the single paths write there, in order; the exit code is that of failure where one of them
fails, and else that of success. -/
theorem check_each (hreadable : ∀ p ∈ paths, ∃ i, Gives files directory input p i)
    (honce : paths.count "-" ≤ 1) :
    (checkReport files directory input c paths).transcript.output =
        String.join (paths.map fun p =>
          (checkReport files directory input c [p]).transcript.output) ∧
      (checkReport files directory input c paths).transcript.error =
        String.join (paths.map fun p =>
          (checkReport files directory input c [p]).transcript.error) ∧
      ((checkReport files directory input c paths).ending = .exit 0 ∨
        (checkReport files directory input c paths).ending = .exit 1) ∧
      ((checkReport files directory input c paths).ending = .exit 1 ↔
        ∃ p ∈ paths, (checkReport files directory input c [p]).ending = .exit 1) := by
  have : Inhabited Input := ⟨⟨standardInput, input⟩⟩
  choose! given hgives using hreadable
  refine ⟨stream_checkReport Transcript.output_append Transcript.output_empty given hgives honce,
    stream_checkReport Transcript.error_append Transcript.error_empty given hgives honce, ?_⟩
  rw [checkReport_eq given hgives honce]
  refine ⟨ending_cases _, ?_⟩
  rw [ending_eq_failure_iff, List.all_eq_false]
  refine exists_congr fun p => and_congr_right fun hp => ?_
  rw [checkReport_singleton (hgives p hp), ending_eq_failure_iff, Bool.not_eq_true]

/-- One file with a literal. -/
def literalFile : FileTree :=
  [(["a"], .file [0x31])]

/-- No limits, and no control sequences. -/
def unlimited : Context :=
  ⟨⟨false, false, false⟩, .default, false⟩

theorem gives_literalFile (input : List UInt8) : Gives literalFile [] input "a" ⟨"a", [0x31]⟩ := by
  rw [Gives, fetch, if_neg (by decide), World.readFile, World.find, ofString_letter]
  rfl

/-- An open bracket on standard input is a failure, and the file after it is reported all the
same. -/
theorem check_each_bracket :
    (∀ p ∈ ["-", "a"], ∃ i, Gives literalFile [] [0x5B] p i) ∧ ["-", "a"].count "-" ≤ 1 ∧
      (checkReport literalFile [] [0x5B] unlimited ["-", "a"]).transcript.output = "a: ok\n" ∧
      (checkReport literalFile [] [0x5B] unlimited ["-", "a"]).ending = .exit 1 := by
  have hbracket : Gives literalFile [] [0x5B] "-" ⟨standardInput, [0x5B]⟩ := rfl
  have hreadable : ∀ p ∈ ["-", "a"], ∃ i, Gives literalFile [] [0x5B] p i :=
    List.forall_mem_cons.mpr ⟨⟨_, hbracket⟩,
      List.forall_mem_singleton.mpr ⟨_, gives_literalFile _⟩⟩
  have honce : ["-", "a"].count "-" ≤ 1 := by decide
  obtain ⟨houtput, -, -, hending⟩ := check_each (c := unlimited) hreadable honce
  refine ⟨hreadable, honce, ?_, hending.mpr ⟨"-", List.mem_cons_self, ?_⟩⟩
  · rw [houtput, List.map_cons, List.map_singleton, checkReport_singleton hbracket,
      checkReport_singleton (gives_literalFile _)]
    decide +kernel
  · rw [checkReport_singleton hbracket, ending_eq_failure_iff]
    decide +kernel

end

end Literals.Command
