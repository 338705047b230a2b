/-
# Canonical text of trees

One text for each tree, in the literal language: no blanks but the one after the colon of an
entry, single quotes, the shortest digits.  **A tuple of one element keeps its comma.**  An
infinity is written as an exponent that overflows.
-/
import Literals.Node.Basic
import Literals.Text.Quoted

namespace Literals

open Number

/-- The brackets of a shape. -/
def Shape.brackets : Shape → Char × Char
  | .tuple => ('(', ')')
  | .list => ('[', ']')
  | .set => ('{', '}')
  | .dict => ('{', '}')
  | .bare => ('?', '?')

/-- A scalar as a literal.  An integer is taken to have at most `longestInteger` digits, as all have
that are read. -/
def Scalar.chars : Scalar → List Char
  | .int n => intText n
  | .long n => intText n
  | .float x => x.text .literal
  | .decimal d => d.text
  | .bool true => ['T', 'r', 'u', 'e']
  | .bool false => ['F', 'a', 'l', 's', 'e']
  | .str s => Text.Quoted.encode s.toList

/-- The imaginary part of a complex number: always with a sign. -/
def imaginaryText (style : FloatStyle) (im : Binary64) : List Char :=
  match im.text style with
  | '-' :: rest => '-' :: rest
  | text => '+' :: text

/-- The comma that a tuple of one element has before its closing bracket. -/
def lastComma : Shape → List Node → List Char
  | .tuple, [_] => [',']
  | _, _ => []

namespace Node

mutual

/-- The canonical text of a tree. -/
def chars : Node → List Char
  | .scalar s => s.chars
  | .none => ['N', 'o', 'n', 'e']
  | .complex re im => '(' :: (re.text .literal ++ imaginaryText .literal im ++ ['j', ')'])
  | .keyValue k v => k.chars ++ ':' :: ' ' :: v.chars
  | .sequence shape xs =>
    shape.brackets.1 :: (joined xs ++ lastComma shape xs ++ [shape.brackets.2])

/-- The texts of several trees with commas between them. -/
def joined : List Node → List Char
  | [] => []
  | x :: xs => x.chars ++ continued xs

/-- The texts of several trees, each with a comma before it. -/
def continued : List Node → List Char
  | [] => []
  | x :: xs => ',' :: (x.chars ++ continued xs)

end

/-- The canonical text of a tree. -/
def text (n : Node) : String :=
  String.ofList n.chars

end Node

end Literals
