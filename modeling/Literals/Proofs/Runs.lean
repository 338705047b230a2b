/-
# Runs on one input

A command that is given one path fetches one input and handles it; how it ends is the exit code of
that, unless the path could not be read.  Whether an input gets as far as a tree does not depend on
what is written on the way: **`Reads c input content t` says that the input is within the limit, is
the text `content`, and is read as `t`** (`readInput_eq_some_iff`), and nothing of this is written on
standard output.
-/
import Literals.Command.Run
import Literals.Proofs.Encoding
import Literals.Proofs.Limit

namespace Literals.Command

/-! ## 1. What is written on standard output -/

namespace Transcript

@[simp] theorem output_append (a b : Transcript) : (a ++ b).output = a.output ++ b.output := rfl

@[simp] theorem output_empty : Transcript.empty.output = "" := rfl

end Transcript

namespace Context

variable {c : Context}

@[simp] theorem output_log (logger message : String) : (c.log logger message).output = "" := by
  unfold log
  split <;> rfl

@[simp] theorem output_errorLine (s : String) : (c.errorLine s).output = "" := rfl

/-- The log is not written on standard output. -/
theorem output_foldl_log (logger : String) (lines : List String) (t : Transcript) :
    (lines.foldl (fun t line => t ++ c.log logger line) t).output = t.output := by
  induction lines generalizing t with
  | nil => rfl
  | cons line lines ih =>
    rw [List.foldl_cons, ih, Transcript.output_append, output_log, String.append_empty]

end Context

/-! ## 2. One input -/

/-- The nesting limit of the reader. -/
def Context.nestingLimit (c : Context) : Option Int :=
  c.settings.maxDepth.map fun n => (n : Int)

/-- The input is within the limit, encodes the text, and is read as the tree. -/
structure Reads (c : Context) (input : Input) (content : List Char) (t : Tree) : Prop where
  length : ∀ n ∈ c.settings.maxLength, input.bytes.length ≤ n
  decoded : Text.Utf8.decode input.bytes = .ok content
  read : Reader.read (String.ofList content) c.nestingLimit = .ok t

variable {c : Context} {input : Input} {content : List Char} {t : Tree}

/-- An input is read in one way. -/
theorem Reads.unique {content' : List Char} {t' : Tree} (h : Reads c input content t)
    (h' : Reads c input content' t') : content = content' ∧ t = t' := by
  obtain rfl := Except.ok.inj (h.decoded.symm.trans h'.decoded)
  exact ⟨rfl, Except.ok.inj (h.read.symm.trans h'.read)⟩

theorem coe_maxDepth (c : Context) :
    (c.settings.maxDepth.map (↑·) : Option Int) = c.nestingLimit := by
  unfold Context.nestingLimit
  cases c.settings.maxDepth <;> rfl

theorem any_lt_eq_false_iff {limit : Option Nat} {n : Nat} :
    limit.any (· < n) = false ↔ ∀ k ∈ limit, n ≤ k := by
  cases limit <;> simp

/-- An input that is read is handed on as its tree and its text. -/
theorem readInput_of_reads (h : Reads c input content t) :
    (readInput c input).2 = some (t, ⟨input.name, content⟩) := by
  unfold readInput
  dsimp only
  split
  next hlong =>
    rw [any_lt_eq_false_iff.mpr h.length] at hlong
    cases hlong
  next =>
    split
    next f hf => exact nomatch h.decoded.symm.trans hf
    next content' hdecoded =>
      obtain rfl := Except.ok.inj (h.decoded.symm.trans hdecoded)
      rw [coe_maxDepth]
      split
      next u hu =>
        obtain rfl : t = u := Except.ok.inj (h.read.symm.trans hu)
        rfl
      next f hf => exact nomatch h.read.symm.trans hf

/-- **Only an input that is read is handed on**; nothing has been written on standard output. -/
theorem readInput_cases (c : Context) (input : Input) :
    (readInput c input).1.output = "" ∧
      ((readInput c input).2 = none ∨ ∃ content t, Reads c input content t) := by
  unfold readInput
  dsimp only
  split
  next => exact ⟨by simp, .inl rfl⟩
  next hlength =>
    split
    next => exact ⟨by simp, .inl rfl⟩
    next content hdecoded =>
      rw [coe_maxDepth]
      split
      next t hread =>
        have hshort := any_lt_eq_false_iff.mp (Bool.eq_false_iff.mpr hlength)
        exact ⟨by simp [Context.output_foldl_log], .inr ⟨content, t, hshort, hdecoded, hread⟩⟩
      next => exact ⟨by simp [Context.output_foldl_log], .inl rfl⟩

/-- What is handed on is the tree and the text of an input that is read. -/
theorem readInput_eq_some_iff {source : Source} : (readInput c input).2 = some (t, source) ↔
    ∃ content, Reads c input content t ∧ source = ⟨input.name, content⟩ := by
  constructor
  · intro h
    rcases (readInput_cases c input).2 with hnone | ⟨content, u, hreads⟩
    · exact nomatch h.symm.trans hnone
    · obtain ⟨rfl, rfl⟩ := Prod.mk.inj (Option.some.inj (h.symm.trans (readInput_of_reads hreads)))
      exact ⟨content, hreads, rfl⟩
  · rintro ⟨content, hreads, rfl⟩
    exact readInput_of_reads hreads

/-! ## 3. One path -/

/-- A path of one letter is a name in the working directory. -/
theorem ofString_letter : WrittenPath.ofString "a" = ⟨false, ["a"]⟩ := by
  have hnames : "a".splitOn "/" = ["a"] := by
    rw [String.splitOn, if_neg (by decide), String.splitOnAux, if_neg (by decide),
      if_neg (by decide), String.splitOnAux, if_pos (by decide)]
    decide +kernel
  rw [WrittenPath.ofString, hnames, show "a".startsWith "/" = false by decide +kernel]
  rfl

section

variable {w : World Id} {path : String} {handle : Input → Transcript × Bool}

theorem overPaths_of_error {e : AccessError} (h : fetch w path = .error e) (u : Transcript)
    (ok : Bool) (paths : List String) :
    overPaths w handle u ok (path :: paths) = ⟨u, .noAccess e⟩ := by
  rw [overPaths]
  change (match fetch w path with | .error e => _ | .ok input => _) = _
  rw [h]
  rfl

theorem overPaths_of_ok (h : fetch w path = .ok input) (u : Transcript) (ok : Bool)
    (paths : List String) : overPaths w handle u ok (path :: paths) =
      overPaths w handle (u ++ (handle input).1) (ok && (handle input).2) paths := by
  rw [overPaths]
  change (match fetch w path with | .error e => _ | .ok input => _) = _
  rw [h]

/-- One path is handled as its input. -/
theorem overPaths_singleton (h : fetch w path = .ok input) :
    overPaths w handle .empty true [path] =
      ⟨.empty ++ (handle input).1, .exit (exitCode (handle input).2)⟩ := by
  rw [overPaths_of_ok h, Bool.true_and]
  rfl

/-- **A run on one path exits without an error exactly when the path is read and its input is
handled well.** -/
theorem ending_singleton_iff : (overPaths w handle .empty true [path]).ending = .exit 0 ↔
    ∃ input, fetch w path = .ok input ∧ (handle input).2 = true := by
  constructor
  · intro h
    cases hfetch : fetch w path with
    | error e =>
      rw [overPaths_of_error hfetch] at h
      cases h
    | ok input =>
      rw [overPaths_singleton hfetch] at h
      refine ⟨input, rfl, ?_⟩
      cases hok : (handle input).2 with
      | true => rfl
      | false =>
        rw [hok] at h
        cases h
  · rintro ⟨input, hfetch, hok⟩
    rw [overPaths_singleton hfetch, hok]
    rfl

end

end Literals.Command
