/-
# The lexical parts of TOML

Blanks, comments, keys, strings, numbers and moments.  Every function takes what is left of the
document and gives back what it leaves.  **A number or a moment takes the longest text that is
one**; what follows is for the caller to judge.
-/
import Literals.Toml.Value
import Literals.Number.Numeral

namespace Literals.Toml

open Number

/-- Why a document is refused: it is malformed, or an integer has too many decimal digits. -/
inductive Error where
  | malformed
  | integerTooLong (digits : Nat)
deriving DecidableEq, Repr

/-- A part that has been read and what is left after it. -/
abbrev Rest (α : Type) := α × List Char

/-! ## 1. Blanks and comments -/

/-- The blanks within a line. -/
def isLineBlank (c : Char) : Bool :=
  c == ' ' || c == '\t'

/-- The blanks between the elements of an array. -/
def isArrayBlank (c : Char) : Bool :=
  isLineBlank c || c == '\n'

/-- Skips blanks within a line. -/
def skipBlanks (s : List Char) : List Char :=
  s.dropWhile isLineBlank

/-- The control characters that may not stand in comments and strings. -/
def isForbidden (multiline : Bool) (c : Char) : Bool :=
  (c.toNat < 0x20 || c.toNat == 0x7F) && c != '\t' && !(multiline && c == '\n')

/-- Skips a comment, if one comes next, up to the end of its line. -/
def skipComment : List Char → Except Error (List Char)
  | '#' :: rest =>
    if (rest.takeWhile (· != '\n')).any (isForbidden false) then .error .malformed
    else .ok (rest.dropWhile (· != '\n'))
  | s => .ok s

/-- Skips blanks, line ends and comments, at most `count` comments. -/
def skipArrayBlanks : Nat → List Char → Except Error (List Char)
  | 0, s => .ok (s.dropWhile isArrayBlank)
  | count + 1, s =>
    match s.dropWhile isArrayBlank with
    | '#' :: rest => skipComment ('#' :: rest) >>= skipArrayBlanks count
    | s => .ok s

/-! ## 2. Strings -/

/-- The value of a hexadecimal digit. -/
def hexValue? (c : Char) : Option Nat :=
  if c.isDigit then some (c.toNat - '0'.toNat)
  else if 'a' ≤ c ∧ c ≤ 'f' then some (c.toNat - 'a'.toNat + 10)
  else if 'A' ≤ c ∧ c ≤ 'F' then some (c.toNat - 'A'.toNat + 10)
  else none

/-- The character with the code point that the first `count` hexadecimal digits give. -/
def hexChar (count : Nat) (s : List Char) : Except Error (Rest Char) :=
  match (s.take count).mapM hexValue? with
  | none => .error .malformed
  | some ds =>
    let n := ds.foldl (fun n d => 16 * n + d) 0
    if ds.length = count ∧ n.isValidChar then .ok (Char.ofNat n, s.drop count)
    else .error .malformed

/-- The character that an escape letter stands for. -/
def escaped? : Char → Option Char
  | 'b' => some '\x08'
  | 't' => some '\t'
  | 'n' => some '\n'
  | 'f' => some '\x0c'
  | 'r' => some '\r'
  | '"' => some '"'
  | '\\' => some '\\'
  | _ => none

/-- What a backslash stands for, given what follows it: a character, or nothing where a line of a
multi-line string is continued on a later one. -/
def escape (multiline : Bool) : List Char → Except Error (Rest (List Char))
  | [] => .error .malformed
  | c :: rest =>
    if multiline ∧ isArrayBlank c then
      match skipBlanks (c :: rest) with
      | [] => .ok ([], [])
      | d :: rest => if d = '\n' then .ok ([], rest.dropWhile isArrayBlank) else .error .malformed
    else if c = 'u' then (hexChar 4 rest).map fun r => ([r.1], r.2)
    else if c = 'U' then (hexChar 8 rest).map fun r => ([r.1], r.2)
    else
      match escaped? c with
      | some d => .ok ([d], rest)
      | none => .error .malformed

/-- The text of a string with escapes up to its closing quotes, of at most `count` characters. -/
def basicBody (multiline : Bool) : Nat → List Char → Except Error (Rest (List Char))
  | 0, _ => .error .malformed
  | _ + 1, [] => .error .malformed
  | count + 1, c :: rest =>
    if c = '"' then
      if !multiline then .ok ([], rest)
      else if ['"', '"'].isPrefixOf rest then .ok ([], rest.drop 2)
      else (basicBody multiline count rest).map fun r => (c :: r.1, r.2)
    else if c = '\\' then do
      let (text, rest) ← escape multiline rest
      let (more, rest) ← basicBody multiline count rest
      .ok (text ++ more, rest)
    else if isForbidden multiline c then .error .malformed
    else (basicBody multiline count rest).map fun r => (c :: r.1, r.2)

/-- The text of a literal string up to its closing quote. -/
def literalBody (s : List Char) : Except Error (Rest (List Char)) :=
  let body := s.takeWhile (· != '\'')
  match s.dropWhile (· != '\'') with
  | [] => .error .malformed
  | _ :: rest => if body.any (isForbidden false) then .error .malformed else .ok (body, rest)

/-- The characters before the first three single quotes, and what follows those. -/
def splitTripleQuote : List Char → Option (List Char × List Char)
  | [] => none
  | c :: rest =>
    if ['\'', '\'', '\''].isPrefixOf (c :: rest) then some ([], rest.drop 2)
    else (splitTripleQuote rest).map fun r => (c :: r.1, r.2)

/-- The text of a multi-line literal string up to its closing quotes. -/
def multilineLiteralBody (s : List Char) : Except Error (Rest (List Char)) :=
  match splitTripleQuote s with
  | none => .error .malformed
  | some (body, rest) =>
    if body.any (isForbidden true) then .error .malformed else .ok (body, rest)

/-- A multi-line string after its opening quotes.  A line feed right after those is dropped, and up
to two quotes more than three at the end belong to the text. -/
def multiline (quote : Char) (body : List Char → Except Error (Rest (List Char))) (s : List Char) :
    Except Error (Rest (List Char)) := do
  let (text, rest) ← body (if s.head? = some '\n' then s.tail else s)
  let extra := ((rest.takeWhile (· == quote)).take 2)
  .ok (text ++ extra, rest.drop extra.length)

/-- A string in either kind of quotes, given with its opening quotes. -/
def stringValue (s : List Char) : Except Error (Rest (List Char)) :=
  match s with
  | '"' :: '"' :: '"' :: rest => multiline '"' (basicBody true (rest.length + 1)) rest
  | '\'' :: '\'' :: '\'' :: rest => multiline '\'' multilineLiteralBody rest
  | '"' :: rest => basicBody false (rest.length + 1) rest
  | '\'' :: rest => literalBody rest
  | _ => .error .malformed

/-! ## 3. Keys -/

/-- The characters of keys without quotes. -/
def isKeyChar (c : Char) : Bool :=
  c.isAlphanum || c == '-' || c == '_'

/-- One part of a key. -/
def keyPart : List Char → Except Error (Rest String)
  | '\'' :: rest => (literalBody rest).map fun r => (String.ofList r.1, r.2)
  | '"' :: rest => (basicBody false (rest.length + 1) rest).map fun r => (String.ofList r.1, r.2)
  | s =>
    let run := s.takeWhile isKeyChar
    if run = [] then .error .malformed
    else .ok (String.ofList run, s.dropWhile isKeyChar)

/-- The parts of a key after the first, each with a point before it, at most `count` of them. -/
def keyRest : Nat → List Char → Except Error (Rest (List String))
  | 0, s => .ok ([], skipBlanks s)
  | count + 1, s =>
    match skipBlanks s with
    | '.' :: rest => do
      let (part, rest) ← keyPart (skipBlanks rest)
      let (parts, rest) ← keyRest count rest
      .ok (part :: parts, rest)
    | s => .ok ([], s)

/-- A key, and the blanks after it. -/
def key (s : List Char) : Except Error (Rest (List String)) := do
  let (part, rest) ← keyPart s
  let (parts, rest) ← keyRest rest.length rest
  .ok (part :: parts, rest)

/-! ## 4. Numbers -/

/-- The digits of a class that a text starts with, single low lines between digits dropped. -/
def digitRun (isDigit : Char → Bool) : List Char → List Char × List Char
  | '_' :: c :: rest =>
    if isDigit c then
      let r := digitRun isDigit rest
      (c :: r.1, r.2)
    else ([], '_' :: c :: rest)
  | c :: rest =>
    if isDigit c then
      let r := digitRun isDigit rest
      (c :: r.1, r.2)
    else ([], c :: rest)
  | [] => ([], [])

/-- The digits that a text starts with, the first character being one of them. -/
def digitGroup? (isDigit : Char → Bool) : List Char → Option (List Char × List Char)
  | c :: rest =>
    if isDigit c then
      let r := digitRun isDigit rest
      some (c :: r.1, r.2)
    else none
  | [] => none

/-- An integer in another base than ten, after its zero. -/
def basedInteger? : List Char → Option (Int × List Char)
  | mark :: rest =>
    let inBase (base : Nat) (isDigit : Char → Bool) : Option (Int × List Char) :=
      (digitGroup? isDigit rest).map fun r =>
        ((r.1.foldl (fun n c => base * n + (hexValue? c).getD 0) 0 : Nat), r.2)
    if mark = 'x' then inBase 16 fun c => (hexValue? c).isSome
    else if mark = 'o' then inBase 8 fun c => '0' ≤ c && c ≤ '7'
    else if mark = 'b' then inBase 2 fun c => c == '0' || c == '1'
    else none
  | [] => none

/-- The fraction that a text starts with. -/
def fractionPart : List Char → Option (List Char) × List Char
  | '.' :: rest =>
    match digitGroup? Char.isDigit rest with
    | some (ds, rest) => (some ds, rest)
    | none => (none, '.' :: rest)
  | s => (none, s)

/-- The exponent that a text starts with. -/
def exponentPart : List Char → Option (Char × Sign × List Char) × List Char
  | c :: rest =>
    if c = 'e' ∨ c = 'E' then
      let (sign, digits) := Sign.split rest
      match digitGroup? Char.isDigit digits with
      | some (ds, rest) => (some (c, sign, ds), rest)
      | none => (none, c :: rest)
    else (none, c :: rest)
  | [] => (none, [])

/-- The whole part of a decimal number: a lone zero, or digits that start with another one. -/
def wholePart? : List Char → Option (List Char × List Char)
  | '0' :: rest => some (['0'], rest)
  | s => digitGroup? Char.isDigit s

/-- A decimal number: a floating-point one where it has a fraction or an exponent.  An integer of
more digits than `longestInteger` is refused. -/
def decimal? (s : List Char) : Option (Except Error (Rest Value)) :=
  let (sign, unsigned) := Sign.split s
  (wholePart? unsigned).map fun (whole, rest) =>
    let (fraction, rest) := fractionPart rest
    let (exponent, rest) := exponentPart rest
    if fraction.isSome || exponent.isSome then
      .ok (.float (Numeral.value ⟨sign, whole, fraction, exponent⟩), rest)
    else if longestInteger < whole.length then .error (.integerTooLong whole.length)
    else
      let n : Int := ofDigits whole
      .ok (.integer (if sign = .minus then -n else n), rest)

/-- A number of any kind. -/
def number? (s : List Char) : Option (Except Error (Rest Value)) :=
  let based :=
    match s with
    | '0' :: rest => basedInteger? rest
    | _ => none
  match based with
  | some (n, rest) => some (.ok (.integer n, rest))
  | none => decimal? s

/-- An infinity or a NaN. -/
def namedFloat? (s : List Char) : Option (Binary64 × List Char) :=
  let (sign, rest) := Sign.split s
  if ['i', 'n', 'f'].isPrefixOf rest then some (.infinite (sign == .minus), rest.drop 3)
  else if ['n', 'a', 'n'].isPrefixOf rest then some (.nan 0, rest.drop 3)
  else none

/-! ## 5. Moments -/

/-- A number of exactly `count` digits within bounds. -/
def fixed? (count low high : Nat) (s : List Char) : Option (Nat × List Char) :=
  let ds := s.take count
  let n := ofDigits ds
  if ds.length = count ∧ ds.all Char.isDigit ∧ low ≤ n ∧ n ≤ high then some (n, s.drop count)
  else none

/-- What follows the given character. -/
def after? (c : Char) : List Char → Option (List Char)
  | d :: rest => if d = c then some rest else none
  | [] => none

/-- The microseconds of a fraction of a second; further digits are dropped. -/
def microseconds : List Char → Nat × List Char
  | '.' :: rest =>
    let ds := rest.takeWhile Char.isDigit
    if ds = [] then (0, '.' :: rest)
    else
      let six := ds.take 6
      (ofDigits (six ++ List.replicate (6 - six.length) '0'), rest.dropWhile Char.isDigit)
  | s => (0, s)

/-- A time of day. -/
def clock? (s : List Char) : Option (Clock × List Char) := do
  let (hour, s) ← fixed? 2 0 23 s
  let s ← after? ':' s
  let (minute, s) ← fixed? 2 0 59 s
  let s ← after? ':' s
  let (second, s) ← fixed? 2 0 59 s
  let (micro, s) := microseconds s
  some (⟨hour, minute, second, micro⟩, s)

/-- A day, which need not exist. -/
def day? (s : List Char) : Option (Day × List Char) := do
  let (year, s) ← fixed? 4 0 9999 s
  let s ← after? '-' s
  let (month, s) ← fixed? 2 1 12 s
  let s ← after? '-' s
  let (day, s) ← fixed? 2 1 31 s
  some (⟨year, month, day⟩, s)

/-- The offset from universal time, in minutes, that a text starts with. -/
def offset : List Char → Option Int × List Char
  | c :: rest =>
    if c = 'Z' ∨ c = 'z' then (some 0, rest)
    else if c = '+' ∨ c = '-' then
      let parts : Option (Int × List Char) := do
        let (hour, s) ← fixed? 2 0 23 rest
        let s ← after? ':' s
        let (minute, s) ← fixed? 2 0 59 s
        let minutes : Int := hour * 60 + minute
        some (if c = '-' then -minutes else minutes, s)
      match parts with
      | some (n, s) => (some n, s)
      | none => (none, c :: rest)
    else (none, c :: rest)
  | [] => (none, [])

/-- The time of day that follows a day after `T` or a blank. -/
def clockAfterDay? : List Char → Option (Clock × List Char)
  | c :: rest => if c = 'T' ∨ c = 't' ∨ c = ' ' then clock? rest else none
  | [] => none

/-- A date, a time, or both.  A day that no calendar has makes the document malformed. -/
def moment? (s : List Char) : Option (Except Error (Rest Value)) :=
  match day? s with
  | some (d, rest) =>
    if !d.exists? then some (.error .malformed)
    else
      match clockAfterDay? rest with
      | some (c, rest) =>
        let (o, rest) := offset rest
        some (.ok (.moment (.dateTime d c o), rest))
      | none => some (.ok (.moment (.date d), rest))
  | none => (clock? s).map fun r => .ok (.moment (.time r.1), r.2)

end Literals.Toml
