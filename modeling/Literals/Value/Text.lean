/-
# Values as text

How a value is shown.  **Every kind of value has a form of its own**: decimals are wrapped, complex
numbers without a positive real zero are parenthesised, an empty set has a name.
-/
import Literals.Value.Basic
import Literals.Number.FloatText
import Literals.Number.Numeral
import Literals.Text.Shown

namespace Literals

open Number

/-- A binary number as it is shown. -/
def shownFloat (x : Binary64) : String :=
  String.ofList (x.text .shown)

/-- A decimal as it is shown. -/
def shownDecimal (d : Decimal) : String :=
  "Decimal('" ++ String.ofList d.text ++ "')"

/-- An integer as it is shown.  That it has not too many digits is asked where it is needed
(`Value.writable`). -/
def shownInt (n : Int) : String :=
  String.ofList (intText n)

/-- What is said instead about an integer of too many digits. -/
def overlongText : String :=
  "Exceeds the limit (4300 digits) for integer string conversion; " ++
    "use sys.set_int_max_str_digits() to increase the limit"

/-- A truth value as it is shown. -/
def shownBool (b : Bool) : String :=
  if b then "True" else "False"

/-- A complex number as it is shown: the imaginary part alone when the real part is positive zero,
else both parts, the second with its sign, in parentheses. -/
def shownComplex (re im : Binary64) : String :=
  let part := String.ofList (im.text .shownPart)
  if re = .zero then part ++ "j"
  else
    let plus := if part.startsWith "-" then "" else "+"
    "(" ++ String.ofList (re.text .shownPart) ++ plus ++ part ++ "j)"

namespace Value

mutual

/-- A value as it is shown. -/
def text : Value → String
  | .none => "None"
  | .bool b => shownBool b
  | .int n => shownInt n
  | .float x => shownFloat x
  | .decimal d => shownDecimal d
  | .complex re im => shownComplex re im
  | .str s => Text.shown s
  | .tuple [] => "()"
  | .tuple (x :: xs) => "(" ++ x.text ++ (if xs.isEmpty then "," else continued xs) ++ ")"
  | .list xs => "[" ++ joined xs ++ "]"
  | .set [] => "set()"
  | .set (x :: xs) => "\x7b" ++ x.text ++ continued xs ++ "\x7d"
  | .dict [] => "\x7b\x7d"
  | .dict ((k, v) :: es) => "\x7b" ++ k.text ++ ": " ++ v.text ++ continuedEntries es ++ "\x7d"

/-- The texts of several values with commas between them. -/
def joined : List Value → String
  | [] => ""
  | x :: xs => x.text ++ continued xs

/-- The texts of several values, each with a comma before it. -/
def continued : List Value → String
  | [] => ""
  | x :: xs => ", " ++ x.text ++ continued xs

/-- The texts of several entries, each with a comma before it. -/
def continuedEntries : List (Value × Value) → String
  | [] => ""
  | (k, v) :: es => ", " ++ k.text ++ ": " ++ v.text ++ continuedEntries es

end

end Value

end Literals
