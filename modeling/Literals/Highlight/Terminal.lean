/-
# Coloured text for a terminal

Each line of each token is written between the code of its class and a reset, and a line feed
after that.  **A class without a colour is written as it is**, an empty line of a coloured class
still gets its two codes.
-/
import Literals.Highlight.Lexer

namespace Literals.Highlight

/-- The code that switches the colour of a class on; empty for a class without colour. -/
def TokenClass.colour : TokenClass → List Char
  | .keyword | .number | .integer | .float => "\x1b[34m".toList
  | .singleQuoted | .doubleQuoted | .escape => "\x1b[33m".toList
  | .error => "\x1b[04m\x1b[91m".toList
  | .text | .punctuation => []

/-- The code that switches colours off. -/
def colourReset : List Char :=
  "\x1b[39;49;00m".toList

/-- A line of a token, without its line feed, in the colour of its class. -/
def paint (c : TokenClass) (s : List Char) : List Char :=
  if c.colour = [] then s else c.colour ++ s ++ colourReset

/-- One line of a token in colour. -/
def paintLine (c : TokenClass) (l : Text.Line) : List Char :=
  if l.ending = ['\n'] then paint c l.body ++ ['\n'] else paint c l.whole

/-- A token in colour. -/
def paintToken (t : Token) : List Char :=
  (Text.lines t.lexeme).flatMap (paintLine t.tokenClass)

/-- A text in colour. -/
def highlight (s : String) : String :=
  String.ofList ((tokens s.toList).flatMap paintToken)

end Literals.Highlight
