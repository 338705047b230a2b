/-
# Command-line arguments

The options of the program stand before the name of a command, the options of a command anywhere
among its arguments, and `--` ends the options in either place.  **An option that asks for the
version or for help is answered before anything else is checked**, though not before all options
around it are known to exist.
-/

namespace Literals.Command

/-! ## 1. What can be asked for -/

/-- The commands. -/
inductive Action where
  | check (paths : List String)
  | view (path : String)
  | eval (path : String)
  | format (path : String) (checkOnly : Bool)
deriving DecidableEq, Repr

/-- The names of the commands. -/
inductive ActionName where
  | check
  | view
  | eval
  | format
deriving DecidableEq, Repr

/-- The command of a name. -/
def ActionName.ofString? : String → Option ActionName
  | "check" => some .check
  | "view" => some .view
  | "eval" => some .eval
  | "format" => some .format
  | _ => none

/-- A question that is answered instead of running a command. -/
inductive Question where
  | version
  | help
deriving DecidableEq, Repr

/-- The options of the program. -/
structure Options where
  configuration : Option String
  noColor : Bool
  verbose : Bool
deriving DecidableEq, Repr

/-- No options. -/
def Options.none : Options :=
  ⟨Option.none, false, false⟩

/-- What the arguments before a command amount to: a mistake, a question, or options and the
arguments from the command's name on. -/
inductive Leading where
  | mistake
  | question (q : Question)
  | options (o : Options) (rest : List String)
deriving DecidableEq, Repr

/-- What the arguments of a command amount to. -/
inductive Request where
  | mistake
  | question (q : Question)
  | action (a : Action)
deriving DecidableEq, Repr

/-! ## 2. Options -/

/-- Whether an argument is read as an option. -/
def isOption (arg : String) : Bool :=
  arg.startsWith "-" && 1 < arg.length

/-- Whether an argument is a bundle of one or more `-v`. -/
def isVerboseBundle (arg : String) : Bool :=
  isOption arg && arg.toList.tail.all (· == 'v')

/-- Reads the arguments before a command. -/
def leadingFrom (o : Options) (q : Option Question) : List String → Leading
  | [] => finish []
  | arg :: rest =>
    if arg = "--" then finish rest
    else if !isOption arg then finish (arg :: rest)
    else if arg = "--version" then leadingFrom o (q.or (some .version)) rest
    else if arg = "--help" then leadingFrom o (q.or (some .help)) rest
    else if arg = "--no-color" then leadingFrom { o with noColor := true } q rest
    else if arg = "--verbose" ∨ isVerboseBundle arg then
      leadingFrom { o with verbose := true } q rest
    else if arg.startsWith "--config=" then
      leadingFrom { o with configuration := some (String.ofList (arg.toList.drop 9)) } q rest
    else if arg = "--config" then
      match rest with
      | path :: rest => leadingFrom { o with configuration := some path } q rest
      | [] => .mistake
    else .mistake
where
  /-- The end of the options: a question takes precedence. -/
  finish (rest : List String) : Leading :=
    match q with
    | some q => .question q
    | none => .options o rest

/-- Reads the arguments before a command. -/
def leading (args : List String) : Leading :=
  leadingFrom .none Option.none args

/-- The name of the command, or what a wrong one amounts to: a name that looks like an option is
read as the options of the program once more. -/
def actionName (args : List String) : Except Leading (ActionName × List String) :=
  match args with
  | [] => .error .mistake
  | name :: rest =>
    match ActionName.ofString? name with
    | some a => .ok (a, rest)
    | none =>
      match name.startsWith "-", leading (name :: rest) with
      | true, .question q => .error (.question q)
      | _, _ => .error .mistake

/-! ## 3. Arguments of commands -/

/-- The arguments of a command sorted into positional ones and options. -/
structure Sorted where
  positional : List String
  checkOnly : Bool
  help : Bool

/-- Sorts the arguments of a command; nothing where an option does not exist. -/
def sortArguments (allowsCheck : Bool) : List String → Option Sorted
  | [] => some ⟨[], false, false⟩
  | arg :: rest =>
    if arg = "--" then some ⟨rest, false, false⟩
    else if !isOption arg then
      (sortArguments allowsCheck rest).map fun s => { s with positional := arg :: s.positional }
    else if arg = "--help" then
      (sortArguments allowsCheck rest).map fun s => { s with help := true }
    else if arg = "--check" ∧ allowsCheck then
      (sortArguments allowsCheck rest).map fun s => { s with checkOnly := true }
    else none

/-- Reads the arguments of a command. -/
def request (name : ActionName) (args : List String) : Request :=
  match sortArguments (name == .format) args with
  | none => .mistake
  | some s =>
    if s.help then .question .help
    else
      match name, s.positional with
      | .check, [] => .mistake
      | .check, paths => .action (.check paths)
      | .view, [path] => .action (.view path)
      | .eval, [path] => .action (.eval path)
      | .format, [path] => .action (.format path s.checkOnly)
      | _, _ => .mistake

end Literals.Command
