/-
# Text shown for a reader

A value that is a text is shown in quotes with everything unprintable escaped.  This is not the
notation of `Quoted`: **the quote adapts to the text**, hexadecimal escapes exist, and every
unprintable character is escaped.
-/
import Literals.Text.Printable

namespace Literals.Text

/-- The last `width` hexadecimal digits of a number, in lower case. -/
def hexDigits (width n : Nat) : List Char :=
  let ds := Nat.toDigits 16 n
  List.replicate (width - ds.length) '0' ++ ds

/-- Double quotes are used only where the text holds a single quote and no double one. -/
def shownQuote (s : List Char) : Char :=
  if s.contains '\'' && !s.contains '"' then '"' else '\''

/-- The shortest hexadecimal escape that holds the character's code point. -/
def hexEscape (c : Char) : List Char :=
  let n := c.toNat
  if n ≤ 0xFF then '\\' :: 'x' :: hexDigits 2 n
  else if n ≤ 0xFFFF then '\\' :: 'u' :: hexDigits 4 n
  else '\\' :: 'U' :: hexDigits 8 n

/-- A character as it is shown between quotes `q`. -/
def shownChar (q c : Char) : List Char :=
  if c = q || c = '\\' then ['\\', c]
  else if c = '\n' then ['\\', 'n']
  else if c = '\r' then ['\\', 'r']
  else if c = '\t' then ['\\', 't']
  else if isPrintable c then [c]
  else hexEscape c

/-- A text as it is shown: quoted, with escapes. -/
def shown (s : String) : String :=
  let q := shownQuote s.toList
  String.ofList (q :: (s.toList.flatMap (shownChar q) ++ [q]))

end Literals.Text
