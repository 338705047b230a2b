/-
# Why a text is not a literal

`Cause` is the reason, one constructor for each; `Fault` is what a caller gets: the kind of the
error, its reason, and a message and a position that are filled in where the error leaves the
reader.  **Annotating keeps the reason and the kind** and appends the position to the message.
-/

namespace Literals

/-! ## 1. Causes -/

/-- The kinds of errors that callers tell apart. -/
inductive FaultKind where
  | malformed
  | endOfInput
  | nestingDepth
deriving DecidableEq, Repr

/-- The reasons for which a rule refuses the text. -/
inductive Cause where
  | emptyExpression
  | trailingText
  | endOfInput
  | nestingDepth (limit : Int)
  | missingClose (close : Char)
  | expectedClose (close : Char)
  | expectedComma
  | expectedColon
  | expectedImaginaryMark
  | expectedComplexClose
  | noInteger
  | badInteger
  | noFloat
  | plainInteger
  | badFloat
  | unclosedString
  | expectedBool
  | expectedNone
deriving DecidableEq, Repr

namespace Cause

/-- The words for a cause.  A limit is written with all its digits.  One that is exceeded is less
than the depth, so only a negative limit could have more digits than an integer is written with
(`Number.longestInteger`); it is assumed that no limit has. -/
def reason : Cause → String
  | .emptyExpression => "empty expression"
  | .trailingText => "garbage at end of expression"
  | .endOfInput => "unexpected end of input"
  | .nestingDepth n => "maximum nesting depth exceeded (" ++ toString n ++ ")"
  | .missingClose c => "missing '" ++ String.singleton c ++ "'"
  | .expectedClose c => "expected '" ++ String.singleton c ++ "'"
  | .expectedComma => "expected ',' in tuple"
  | .expectedColon => "expected ':'"
  | .expectedImaginaryMark => "expected 'j' after imaginary part"
  | .expectedComplexClose => "expected ')' to end a complex number"
  | .noInteger => "invalid int character"
  | .badInteger => "invalid integer format"
  | .noFloat => "invalid float character"
  | .plainInteger => "number is not a valid float"
  | .badFloat => "invalid float format"
  | .unclosedString => "unclosed string"
  | .expectedBool => "expected bool, True or False"
  | .expectedNone => "expected None"

/-- The kind of error that a cause makes. -/
def kind : Cause → FaultKind
  | .endOfInput => .endOfInput
  | .nestingDepth _ => .nestingDepth
  | _ => .malformed

/-- Whether the cause ends the reading at once, so that no other alternative is tried. -/
def isFinal (c : Cause) : Bool :=
  c.kind == .nestingDepth

end Cause

/-! ## 2. Faults -/

/-- An error as callers see it. -/
structure Fault where
  kind : FaultKind
  message : String
  reason : String
  position : Option Int
deriving DecidableEq, Repr

namespace Fault

/-- An error with its message for a reason. -/
def make (kind : FaultKind) (message : String) (position : Option Int) : Fault :=
  ⟨kind, message, message, position⟩

/-- An error with a given cause, not yet annotated. -/
def ofCause (c : Cause) : Fault :=
  make c.kind c.reason none

/-- The error with a position, which its message then names. -/
def annotate (f : Fault) (position : Int) : Fault :=
  { f with
    message := f.message ++ " (at position " ++ toString position ++ ")"
    position := some position }

/-- What is worth saying about an error beside its reason. -/
def notes (f : Fault) : List String :=
  match f.kind with
  | .malformed => []
  | .endOfInput => ["the expression ended before every literal was closed"]
  | .nestingDepth =>
    ["raise parser.max_depth in literaltree.toml, or set it to 0 for no limit"]

/-- The code under which an error is listed. -/
def code (f : Fault) : String :=
  if f.kind = .endOfInput then "E100" else "E200"

end Fault

end Literals
