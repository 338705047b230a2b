/-
# Tokens for colouring

The classes into which a literal text is divided for display.  A division covers the whole text,
well formed or not: what belongs to no class is an error token of one character.
-/

namespace Literals.Highlight

/-- The classes of tokens. -/
inductive TokenClass where
  | text
  | error
  | punctuation
  | keyword
  | number
  | integer
  | float
  | singleQuoted
  | doubleQuoted
  | escape
deriving DecidableEq, Repr

/-- The name of a class. -/
def TokenClass.name : TokenClass → String
  | .text => "Text"
  | .error => "Error"
  | .punctuation => "Punctuation"
  | .keyword => "Keyword.Constant"
  | .number => "Literal.Number"
  | .integer => "Literal.Number.Integer"
  | .float => "Literal.Number.Float"
  | .singleQuoted => "Literal.String.Single"
  | .doubleQuoted => "Literal.String.Double"
  | .escape => "Literal.String.Escape"

/-- A piece of text with its class. -/
structure Token where
  tokenClass : TokenClass
  lexeme : List Char
deriving DecidableEq, Repr

end Literals.Highlight
