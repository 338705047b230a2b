/-
# Rules for literals without parts

Numbers, complex numbers, strings and the three names.  Numbers are scanned first and judged
afterwards: **each rule takes the longest run of characters that its kind of number may contain
and then accepts or refuses the run as a whole**, so a refused number stops the reader behind it.
-/
import Literals.Reader.Rule
import Literals.Node.Basic
import Literals.Text.Quoted

namespace Literals.Reader

open Number

/-! ## 1. Character classes -/

/-- The characters that an integer may contain. -/
def isIntegerChar (c : Char) : Bool :=
  c.isDigit || c == '-'

/-- The characters that mark the exponent of a number. -/
def isExponentMark (c : Char) : Bool :=
  c == 'e' || c == 'E'

/-- The signs. -/
def isSign (c : Char) : Bool :=
  c == '+' || c == '-'

/-- The characters that the digits before an exponent may contain. -/
def isMantissaChar (c : Char) : Bool :=
  c.isDigit || c == '.'

/-- The characters that a floating-point number may contain. -/
def isFloatChar (c : Char) : Bool :=
  isMantissaChar c || isSign c || isExponentMark c

/-- The quotes. -/
def isQuote (c : Char) : Bool :=
  c == '\'' || c == '"'

/-- The brackets that open a compound literal. -/
def isOpening (c : Char) : Bool :=
  c == '[' || c == '{' || c == '('

/-! ## 2. Numbers -/

/-- The scalar that the text of an integer denotes, if it is one: digits with at most a minus
before them.  Written with more digits than `longestInteger`, it is kept as a decimal. -/
def integer? (s : List Char) : Option Scalar :=
  let (sign, ds) := Sign.split s
  if sign = .plus ∨ ds = [] ∨ !ds.all Char.isDigit then none
  else if longestInteger < ds.length then some (.decimal ⟨sign == .minus, ofDigits ds, 0⟩)
  else some (.ofInt (if sign = .minus then -(ofDigits ds : Int) else ofDigits ds))

/-- An integer. -/
def integer : Rule Id Node := do
  let text ← Rule.takeWhile isIntegerChar
  if text = [] then Rule.fail .noInteger
  else
    match integer? text with
    | some s => pure (.scalar s)
    | none => Rule.fail .badInteger

/-- Whether a text has something that no integer has: a point or an exponent mark. -/
def looksFloat (s : List Char) : Bool :=
  s.any fun c => c == '.' || isExponentMark c

/-- A floating-point number. -/
def float : Rule Id Node := do
  let text ← Rule.takeWhile isFloatChar
  if text = [] then Rule.fail .noFloat
  else if !looksFloat text then Rule.fail .plainInteger
  else
    match Numeral.read? text with
    | some x => if x.sign = .plus then Rule.fail .badFloat else pure (.scalar (.float x.value))
    | none => Rule.fail .badFloat

/-- The text of a number that is part of a complex one: a sign, digits and points, and an exponent
where its mark comes next. -/
def partText : Rule Id (List Char) := do
  let sign ← Rule.oneOf isSign
  let mantissa ← Rule.takeWhile isMantissaChar
  let mark ← Rule.oneOf isExponentMark
  if mark = [] then pure (sign ++ mantissa)
  else
    let exponentSign ← Rule.oneOf isSign
    let ds ← Rule.takeWhile Char.isDigit
    pure (sign ++ mantissa ++ mark ++ exponentSign ++ ds)

/-- A number that is part of a complex one. -/
def part : Rule Id Binary64 := do
  match Numeral.read? (← partText) with
  | some x => pure x.value
  | none => Rule.fail .badFloat

/-- An imaginary part. -/
def imaginary : Rule Id Binary64 := do
  let x ← part
  Rule.mark 'j' .expectedImaginaryMark
  pure x

/-- A complex number: an imaginary part alone, or both parts in parentheses. -/
def complex : Rule Id Node := do
  if (← Rule.peek) = '(' then
    let _ ← Rule.next
    let re ← part
    let im ← imaginary
    Rule.mark ')' .expectedComplexClose
    pure (.complex re im)
  else
    let im ← imaginary
    pure (.complex .zero im)

/-! ## 3. Strings and names -/

/-- The text of a string up to its closing quote, which is read too. -/
def stringBody (quote : Char) (offset : Nat) : List Char → Outcome (List Char)
  | [] => .failed .unclosedString ⟨offset, []⟩
  | c :: rest =>
    if c = quote then .ok [] ⟨offset + 1, rest⟩
    else if c = '\\' then
      match rest with
      | [] => .failed .unclosedString ⟨offset + 1, []⟩
      | e :: rest' =>
        match stringBody quote (offset + 2) rest' with
        | .ok text stop => .ok (Text.Quoted.unescapeLetter e :: text) stop
        | .failed cause stop => .failed cause stop
    else
      match stringBody quote (offset + 1) rest with
      | .ok text stop => .ok (c :: text) stop
      | .failed cause stop => .failed cause stop

/-- A string in either kind of quotes. -/
def string : Rule Id Node := do
  let quote ← Rule.next
  let text ← fun p => stringBody quote p.offset p.rest
  pure (.scalar (.str (String.ofList text)))

/-- A truth value. -/
def bool : Rule Id Node := do
  if ← Rule.word ['T', 'r', 'u', 'e'] then pure (.scalar (.bool true))
  else if ← Rule.word ['F', 'a', 'l', 's', 'e'] then pure (.scalar (.bool false))
  else Rule.fail .expectedBool

/-- The literal `None`. -/
def noneLiteral : Rule Id Node := do
  if ← Rule.word ['N', 'o', 'n', 'e'] then pure .none else Rule.fail .expectedNone

end Literals.Reader
