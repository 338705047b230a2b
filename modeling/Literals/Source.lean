/-
# Source texts and places in them

A source is a text with a name.  Its lines are those of `Text.lines`, while a location counts line
feeds alone; both number from one.  **Offsets outside the text are moved to its nearest end.**
-/
import Literals.Text.Blank

namespace Literals

/-- A range of a source, by lines and columns, both ends included. -/
structure Span where
  file : String
  startLine : Int
  startColumn : Int
  endLine : Int
  endColumn : Int
deriving DecidableEq, Repr

/-- The start of a span as `file:line:column`. -/
def Span.text (s : Span) : String :=
  s.file ++ ":" ++ toString s.startLine ++ ":" ++ toString s.startColumn

/-- A text with a name. -/
structure Source where
  filename : String
  content : List Char

namespace Source

/-- A source from a text. -/
def ofString (filename content : String) : Source :=
  ⟨filename, content.toList⟩

/-- The lines of a source, without their breaks. -/
def lines (s : Source) : List (List Char) :=
  (Text.lines s.content).map Text.Line.body

/-- The line of a number from one on; empty where there is none. -/
def lineAt (s : Source) (n : Int) : List Char :=
  if 1 ≤ n then (s.lines[n.toNat - 1]?).getD [] else []

/-- The offset moved into the text. -/
def clamp (s : Source) (offset : Int) : Nat :=
  min offset.toNat s.content.length

/-- The line and the column of an offset. -/
def location (s : Source) (offset : Int) : Nat × Nat :=
  let before := s.content.take (s.clamp offset)
  (before.count '\n' + 1, (before.reverse.takeWhile (· ≠ '\n')).length + 1)

/-- The span of the one character at an offset. -/
def spanAt (s : Source) (offset : Int) : Span :=
  let (line, column) := s.location offset
  ⟨s.filename, line, column, line, column⟩

end Source

end Literals
