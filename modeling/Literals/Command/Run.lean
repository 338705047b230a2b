/-
# Running a command

What a command writes is a `Transcript`; each input is handled on its own, so that **what `check`
writes about several inputs is what it writes about each, in order**.  Everything that a command
learns from its surroundings comes through a `World`.
-/
import Literals.Command.Arguments
import Literals.Files
import Literals.Reader.Bytes
import Literals.Diagnostic
import Literals.Node.Outline
import Literals.Node.Printer
import Literals.Value.Report
import Literals.Highlight.Terminal

namespace Literals.Command

/-! ## 1. Transcripts -/

/-- What is written on standard output and on standard error. -/
structure Transcript where
  output : String
  error : String
deriving DecidableEq, Repr

namespace Transcript

/-- Nothing written. -/
def empty : Transcript :=
  ⟨"", ""⟩

/-- One transcript after another. -/
def append (a b : Transcript) : Transcript :=
  ⟨a.output ++ b.output, a.error ++ b.error⟩

instance : Append Transcript :=
  ⟨append⟩

end Transcript

/-- How a run ends: with an exit code, or because a file or a configuration could not be used. -/
inductive Ending where
  | exit (code : Nat)
  | noAccess (error : AccessError)
  | noSettings (error : SettingsError)

/-- What a run leaves: its transcript and how it ended. -/
structure Report where
  transcript : Transcript
  ending : Ending

/-- What the streams take: whether control sequences are kept on each, and whether standard output
is a terminal. -/
structure Streams where
  outputKeepsStyle : Bool
  errorKeepsStyle : Bool
  terminal : Bool

/-- What is fixed for a whole run. -/
structure Context where
  streams : Streams
  settings : Settings
  verbose : Bool

namespace Context

/-- Text on standard output. -/
def out (c : Context) (s : String) : Transcript :=
  ⟨if c.streams.outputKeepsStyle then s else Text.Ansi.plain s, ""⟩

/-- A line on standard output. -/
def outLine (c : Context) (s : String) : Transcript :=
  c.out (s ++ "\n")

/-- A line on standard error. -/
def errorLine (c : Context) (s : String) : Transcript :=
  ⟨"", if c.streams.errorKeepsStyle then s ++ "\n" else Text.Ansi.plain (s ++ "\n")⟩

/-- A line of the log, which is kept only where it was asked for. -/
def log (c : Context) (logger message : String) : Transcript :=
  if c.verbose then ⟨"", logger ++ ": " ++ message ++ "\n"⟩ else .empty

end Context

/-! ## 2. One input -/

/-- An input: the name under which it is reported, and its bytes. -/
structure Input where
  name : String
  bytes : List UInt8

/-- The name under which standard input is reported. -/
def standardInput : String :=
  "<stdin>"

/-- Reads the literal in an input, and reports what is wrong with it. -/
def readInput (c : Context) (input : Input) : Transcript × Option (Tree × Source) :=
  let size := input.bytes.length
  let begun := c.log "literaltree.cli"
    ("parsing " ++ input.name ++ " (" ++ toString size ++ " bytes)")
  let refuse (s : String) : Transcript × Option (Tree × Source) := (begun ++ c.errorLine s, none)
  if c.settings.maxLength.any (· < size) then
    refuse ("error: " ++ input.name ++ ": input is " ++ toString size ++ " bytes, limit is " ++
      toString (c.settings.maxLength.getD 0))
  else
    match Text.Utf8.decode input.bytes with
    | .error f => refuse ("error: " ++ input.name ++ ": " ++ Reader.decodeMessage f)
    | .ok content =>
      let source : Source := ⟨input.name, content⟩
      let session := Reader.Session.start (String.ofList content) (c.settings.maxDepth.map (↑·))
      let (result, session) := session.read
      let traced := session.log.foldl (fun t line => t ++ c.log "literaltree.parser" line) begun
      match result with
      | .ok tree => (traced, some (tree, source))
      | .error f =>
        (traced ++ c.errorLine ((f.diagnostic source).render source c.settings.color), none)

/-- The exit code for success or failure. -/
def exitCode (ok : Bool) : Nat :=
  if ok then 0 else 1

/-- Checks one input. -/
def checkInput (c : Context) (input : Input) : Transcript × Bool :=
  match readInput c input with
  | (t, none) => (t, false)
  | (t, some _) => (t ++ c.outLine (input.name ++ ": ok"), true)

/-- Shows the outline of one input. -/
def viewInput (c : Context) (input : Input) : Transcript × Bool :=
  match readInput c input with
  | (t, none) => (t, false)
  | (t, some (tree, _)) =>
    ((tree.root.outline 0).foldl (fun t line => t ++ c.outLine line) t, true)

/-- Shows the value of one input, in colour where that is wanted and standard output is a
terminal. -/
def evalInput (c : Context) (input : Input) : Transcript × Bool :=
  match readInput c input with
  | (t, none) => (t, false)
  | (t, some (tree, _)) =>
    match tree.fold with
    | .error e => (t ++ c.errorLine ("error: " ++ e.message), false)
    | .ok v =>
      if c.settings.color ∧ c.streams.terminal then
        (t ++ c.out (Highlight.highlight v.text), true)
      else (t ++ c.outLine v.text, true)

/-- The text without line feeds at its end. -/
def withoutFinalFeeds (s : List Char) : List Char :=
  (s.reverse.dropWhile (· == '\n')).reverse

/-- Shows the canonical text of one input or, where only a check was asked for, tells whether the
input has it already. -/
def formatInput (c : Context) (checkOnly : Bool) (input : Input) : Transcript × Bool :=
  match readInput c input with
  | (t, none) => (t, false)
  | (t, some (tree, source)) =>
    if checkOnly then
      if withoutFinalFeeds source.content = tree.root.chars then (t, true)
      else (t ++ c.outLine ("would reformat " ++ source.filename), false)
    else (t ++ c.outLine tree.root.text, true)

/-! ## 3. Whole runs -/

section

variable {m : Type → Type} [Monad m]

/-- The input at a path; a single hyphen is standard input. -/
def fetch (w : World m) (path : String) : m (Except AccessError Input) := do
  if path = "-" then
    pure (.ok ⟨standardInput, ← w.input⟩)
  else
    match ← w.readFile path with
    | .ok bytes => pure (.ok ⟨path, bytes⟩)
    | .error e => pure (.error e)

/-- Handles the inputs at several paths in order.  A failure is remembered and does not end the
run; a file that cannot be read does. -/
def overPaths (w : World m) (handle : Input → Transcript × Bool) :
    Transcript → Bool → List String → m Report
  | t, ok, [] => pure ⟨t, .exit (exitCode ok)⟩
  | t, ok, path :: paths => do
    match ← fetch w path with
    | .error e => pure ⟨t, .noAccess e⟩
    | .ok input =>
      let (t', ok') := handle input
      overPaths w handle (t ++ t') (ok && ok') paths

/-- Does what a command asks for. -/
def perform (w : World m) (c : Context) : Action → m Report
  | .check paths => overPaths w (checkInput c) .empty true paths
  | .view path => overPaths w (viewInput c) .empty true [path]
  | .eval path => overPaths w (evalInput c) .empty true [path]
  | .format path checkOnly => overPaths w (formatInput c checkOnly) .empty true [path]

/-- The settings for a run: those of the file that was named, else those found on the way up. -/
def loadSettings (w : World m) (configuration : Option String) :
    m (Except LoadError Settings) := do
  match configuration with
  | none => w.discover w.workingDirectory
  | some path =>
    match ← w.readFile path with
    | .error e => pure (.error (.access e))
    | .ok bytes => pure (Entry.file bytes).settings

/-- The exit code of a run whose arguments are mistaken. -/
def usageExit : Nat := 2

/-- The text about the program's version. -/
def versionText : String :=
  "literaltree, version 0.1.0"

/-- The text about the program's use. -/
def helpText : String :=
  "Usage: literaltree [--config FILE] [--no-color] [-v] COMMAND [ARGS]...\n\n" ++
    "Parse and evaluate literal expressions.\n\n" ++
    "Commands: check PATHS..., view PATH, eval PATH, format [--check] PATH"

/-- The answer to a question. -/
def answer (streams : Streams) (q : Question) : Report :=
  let c : Context := ⟨streams, .default, false⟩
  match q with
  | .version => ⟨c.outLine versionText, .exit 0⟩
  | .help => ⟨c.outLine helpText, .exit 0⟩

/-- The report on mistaken arguments. -/
def mistaken : Report :=
  ⟨.empty, .exit usageExit⟩

/-- The report on settings that could not be loaded. -/
def unsettled (streams : Streams) : LoadError → Report
  | .access e => ⟨.empty, .noAccess e⟩
  | .settings e =>
    match e.message? with
    | none => ⟨.empty, .noSettings e⟩
    | some text =>
      let c : Context := ⟨streams, .default, false⟩
      ⟨c.errorLine ("error: invalid configuration: " ++ text), .exit 1⟩

/-- Runs the program.  The options are judged first, then the name of the command, then the
settings, and the command's own arguments last. -/
def run (w : World m) (streams : Streams) (args : List String) : m Report := do
  match leading args with
  | .mistake => pure mistaken
  | .question q => pure (answer streams q)
  | .options o rest =>
    let named ←
      match o.configuration with
      | none => pure true
      | some path => do
        match ← w.find path with
        | .ok (.file _) => pure true
        | _ => pure false
    if !named then pure mistaken
    else
      match actionName rest with
      | .error (.question q) => pure (answer streams q)
      | .error _ => pure mistaken
      | .ok (name, args) =>
        match ← loadSettings w o.configuration with
        | .error e => pure (unsettled streams e)
        | .ok settings =>
          match request name args with
          | .mistake => pure mistaken
          | .question q => pure (answer streams q)
          | .action a =>
            let settings := { settings with color := settings.color && !o.noColor }
            perform w ⟨streams, settings, o.verbose⟩ a

end

end Literals.Command
