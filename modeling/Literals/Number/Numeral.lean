/-
# Numerals

A numeral is the text of a number taken apart: sign, whole part, fraction, exponent.  `text` puts
it together and `read?` takes it apart; **`read?` accepts exactly the texts that some well-formed
numeral has**, a well-formed numeral having at least one digit, and at least one after an exponent
mark.  What a numeral denotes as a binary number is `value`.
-/
import Literals.Number.Binary64
import Literals.Number.Decimal
import Literals.Text.Blank

namespace Literals.Number

/-! ## 1. Parts -/

/-- A sign as it is written. -/
inductive Sign where
  | absent
  | plus
  | minus
deriving DecidableEq, Repr

/-- The characters of a sign. -/
def Sign.text : Sign → List Char
  | .absent => []
  | .plus => ['+']
  | .minus => ['-']

/-- The sign that a text starts with, and what follows it. -/
def Sign.split : List Char → Sign × List Char
  | '+' :: rest => (.plus, rest)
  | '-' :: rest => (.minus, rest)
  | s => (.absent, s)

/-- A numeral: `fraction` is nothing where no point is written, `exponent` where no exponent is. -/
structure Numeral where
  sign : Sign
  whole : List Char
  fraction : Option (List Char)
  exponent : Option (Char × Sign × List Char)
deriving DecidableEq, Repr

namespace Numeral

/-- The digits after the point. -/
def fractionDigits (x : Numeral) : List Char :=
  x.fraction.getD []

/-- The numeral has digits, only digits where digits belong, and a proper exponent. -/
def WellFormed (x : Numeral) : Prop :=
  x.whole ++ x.fractionDigits ≠ [] ∧
  (∀ c ∈ x.whole ++ x.fractionDigits, c.isDigit = true) ∧
  ∀ e ∈ x.exponent, (e.1 = 'e' ∨ e.1 = 'E') ∧ e.2.2 ≠ [] ∧ ∀ c ∈ e.2.2, c.isDigit = true

/-- The characters of the exponent. -/
def exponentText : Option (Char × Sign × List Char) → List Char
  | none => []
  | some (mark, sign, ds) => mark :: (sign.text ++ ds)

/-- The characters of the numeral. -/
def text (x : Numeral) : List Char :=
  x.sign.text ++ x.whole ++ (x.fraction.elim [] ('.' :: ·)) ++ exponentText x.exponent

/-! ## 2. Reading -/

/-- The exponent that makes up a whole text, if it is one; the empty text is no exponent. -/
def readExponent? : List Char → Option (Option (Char × Sign × List Char))
  | [] => some none
  | c :: rest =>
    let (sign, ds) := Sign.split rest
    if (c = 'e' ∨ c = 'E') ∧ ds ≠ [] ∧ ds.all Char.isDigit then some (some (c, sign, ds)) else none

/-- The point and the fraction that a text starts with, and what follows them. -/
def splitFraction : List Char → Option (List Char) × List Char
  | '.' :: rest => (some (rest.takeWhile Char.isDigit), rest.dropWhile Char.isDigit)
  | s => (none, s)

/-- The numeral that makes up a whole text, if it is one. -/
def read? (s : List Char) : Option Numeral :=
  let (sign, rest) := Sign.split s
  let whole := rest.takeWhile Char.isDigit
  let (fraction, rest) := splitFraction (rest.dropWhile Char.isDigit)
  if whole ++ fraction.getD [] = [] then none
  else (readExponent? rest).map fun exponent => ⟨sign, whole, fraction, exponent⟩

/-! ## 3. Values -/

/-- All digits before the exponent. -/
def coefficient (x : Numeral) : Nat :=
  ofDigits (x.whole ++ x.fractionDigits)

/-- The exponent of ten that the digits before the exponent mark are to be taken with. -/
def scale (x : Numeral) : Int :=
  let written : Int :=
    match x.exponent with
    | none => 0
    | some (_, .minus, ds) => -(ofDigits ds : Int)
    | some (_, _, ds) => ofDigits ds
  written - x.fractionDigits.length

/-- The binary number nearest the numeral. -/
def value (x : Numeral) : Binary64 :=
  .ofDecimal (x.sign == .minus) x.coefficient x.scale

/-- The numeral as a decimal, digit for digit. -/
def toDecimal (x : Numeral) : Decimal :=
  ⟨x.sign == .minus, x.coefficient, x.scale⟩

end Numeral

/-! ## 4. Numbers in free text -/

/-- The text without blanks at either end. -/
def trimBlanks (s : List Char) : List Char :=
  ((s.dropWhile Text.isBlank).reverse.dropWhile Text.isBlank).reverse

/-- The text without the low lines that stand between two digits. -/
def dropDigitGaps : List Char → List Char
  | a :: '_' :: b :: rest =>
    if a.isDigit && b.isDigit then a :: dropDigitGaps (b :: rest)
    else a :: '_' :: dropDigitGaps (b :: rest)
  | c :: rest => c :: dropDigitGaps rest
  | [] => []

/-- A binary number from free text: a numeral, or the name of an infinity or of a NaN, which gets
the given mark. -/
def Binary64.read? (mark : Nat) (s : List Char) : Option Binary64 :=
  let s := dropDigitGaps (trimBlanks s)
  match Numeral.read? s with
  | some x => some x.value
  | none =>
    let (sign, name) := Sign.split s
    let name := String.ofList (name.map Char.toLower)
    if name = "inf" ∨ name = "infinity" then some (.infinite (sign == .minus))
    else if name = "nan" then some (.nan mark)
    else none

/-- A decimal from free text. -/
def Decimal.read? (s : List Char) : Option Decimal :=
  (Numeral.read? (dropDigitGaps (trimBlanks s))).map Numeral.toDecimal

/-- An integer from free text. -/
def readInt? (s : List Char) : Option Int :=
  let (sign, ds) := Sign.split (dropDigitGaps (trimBlanks s))
  if ds ≠ [] ∧ ds.all Char.isDigit then
    some (if sign = .minus then -(ofDigits ds : Int) else ofDigits ds)
  else none

/-- The text of an integer, which is taken to have at most `longestInteger` digits. -/
def intText (n : Int) : List Char :=
  if n < 0 then '-' :: digits n.natAbs else digits n.natAbs

end Literals.Number
