/-
# Dividing a text into tokens

The lexer is outside strings or inside one of either kind.  At each place the first pattern that
matches takes its characters; a pattern is known here by **how many characters it takes**, so a
division cannot lose any: `flatMap_lexeme_lexFrom` says that the tokens make up the text, and
`lexeme_ne_nil` that each of them takes something.

Before lexing a text is prepared: a byte-order mark in front is dropped, every line break of the
carriage-return family becomes a line feed, and exactly one line feed stands at the end.
-/
import Literals.Highlight.Token
import Literals.Text.Blank
import Literals.Text.DecimalDigit
import Literals.Text.WordChar

namespace Literals.Highlight

open Text

/-! ## 1. Preparation -/

/-- Carriage returns, alone or before a line feed, as line feeds. -/
def unifyBreaks : List Char → List Char
  | [] => []
  | '\r' :: '\n' :: rest => '\n' :: unifyBreaks rest
  | '\r' :: rest => '\n' :: unifyBreaks rest
  | c :: rest => c :: unifyBreaks rest

/-- The text without line feeds at its ends. -/
def stripFeeds (s : List Char) : List Char :=
  ((s.dropWhile (· == '\n')).reverse.dropWhile (· == '\n')).reverse

/-- The text as it is lexed. -/
def prepare (s : List Char) : List Char :=
  let s := if s.head? = some '\uFEFF' then s.tail else s
  stripFeeds (unifyBreaks s) ++ ['\n']

/-! ## 2. Patterns -/

/-- How many characters of a class a text starts with. -/
def countWhile (inClass : Char → Bool) (s : List Char) : Nat :=
  (s.takeWhile inClass).length

/-- The length of a sign, if one comes first. -/
def signLength (signs : List Char) : List Char → Nat
  | [] => 0
  | c :: _ => if signs.contains c then 1 else 0

/-- The length of digits with a point among, after or before them, or of digits alone where
`needsPoint` does not forbid it. -/
def mantissaLength? (needsPoint : Bool) (s : List Char) : Option Nat :=
  let whole := countWhile isDecimalDigit s
  match s.drop whole with
  | '.' :: rest =>
    let fraction := countWhile isDecimalDigit rest
    if whole + fraction = 0 then none else some (whole + 1 + fraction)
  | _ => if whole = 0 || needsPoint then none else some whole

/-- The length of an exponent. -/
def exponentLength? : List Char → Option Nat
  | c :: rest =>
    if c = 'e' ∨ c = 'E' then
      let sign := signLength ['+', '-'] rest
      let ds := countWhile isDecimalDigit (rest.drop sign)
      if ds = 0 then none else some (1 + sign + ds)
    else none
  | [] => none

/-- The length of an imaginary number. -/
def imaginaryLength? (s : List Char) : Option Nat := do
  let sign := signLength ['+', '-'] s
  let mantissa ← mantissaLength? false (s.drop sign)
  let exponent := (exponentLength? (s.drop (sign + mantissa))).getD 0
  let n := sign + mantissa + exponent
  if (s.drop n).head? = some 'j' then some (n + 1) else none

/-- The length of a number with a point. -/
def pointedLength? (s : List Char) : Option Nat := do
  let sign := signLength ['-'] s
  let mantissa ← mantissaLength? true (s.drop sign)
  let exponent := (exponentLength? (s.drop (sign + mantissa))).getD 0
  some (sign + mantissa + exponent)

/-- The length of digits with an exponent. -/
def scaledLength? (s : List Char) : Option Nat := do
  let sign := signLength ['-'] s
  let whole := countWhile isDecimalDigit (s.drop sign)
  if whole = 0 then none
  else
    let exponent ← exponentLength? (s.drop (sign + whole))
    some (sign + whole + exponent)

/-- The length of an integer. -/
def integerLength? (s : List Char) : Option Nat :=
  let sign := signLength ['-'] s
  let whole := countWhile isDecimalDigit (s.drop sign)
  if whole = 0 then none else some (sign + whole)

/-- The words that are coloured as keywords. -/
def keywords : List (List Char) :=
  [['F', 'a', 'l', 's', 'e'], ['N', 'o', 'n', 'e'], ['T', 'r', 'u', 'e']]

/-- The length of a keyword that is a word of its own, given the character before it. -/
def keywordLength? (before : Option Char) (s : List Char) : Option Nat :=
  match keywords.find? (fun w => w.isPrefixOf s) with
  | none => none
  | some w =>
    if (before.any isWordChar) || ((s.drop w.length).head?.any isWordChar) then none
    else some w.length

/-- The characters of punctuation. -/
def isPunctuation (c : Char) : Bool :=
  ['(', ')', ',', '[', ']', '\x7b', '\x7d', ':'].contains c

/-! ## 3. One token -/

/-- Where the lexer stands. -/
inductive Mode where
  | root
  | singleQuoted
  | doubleQuoted
deriving DecidableEq, Repr

/-- A token to come: its class, how many characters it has beside the first, and where the lexer
stands after it. -/
structure Step where
  tokenClass : TokenClass
  extra : Nat
  mode : Mode

/-- The numeric pattern that matches first, and its length. -/
def numberStep? (s : List Char) : Option Step :=
  let step (c : TokenClass) (n : Nat) : Step := ⟨c, n - 1, .root⟩
  ((imaginaryLength? s).map (step .number)).or <|
    ((pointedLength? s).map (step .float)).or <|
      ((scaledLength? s).map (step .float)).or ((integerLength? s).map (step .integer))

/-- The next token outside strings, which starts with `c`. -/
def rootStep (before : Option Char) (c : Char) (rest : List Char) : Step :=
  if isBlank c then ⟨.text, countWhile isBlank rest, .root⟩
  else if c = '\'' then ⟨.singleQuoted, 0, .singleQuoted⟩
  else if c = '"' then ⟨.doubleQuoted, 0, .doubleQuoted⟩
  else
    match keywordLength? before (c :: rest) with
    | some n => ⟨.keyword, n - 1, .root⟩
    | none =>
      match numberStep? (c :: rest) with
      | some step => step
      | none =>
        if c = '+' ∨ c = '-' then ⟨.number, 0, .root⟩
        else if isPunctuation c then ⟨.punctuation, 0, .root⟩
        else ⟨.error, 0, .root⟩

/-- The next token inside a string, which starts with `c`. -/
def stringStep (quote : Char) (tokenClass : TokenClass) (mode : Mode) (c : Char)
    (rest : List Char) : Step :=
  if c = '\\' then
    match rest with
    | d :: _ => if d = '\n' then ⟨.error, 0, mode⟩ else ⟨.escape, 1, mode⟩
    | [] => ⟨.error, 0, mode⟩
  else if c = quote then ⟨tokenClass, 0, .root⟩
  else ⟨tokenClass, countWhile (fun d => d != quote && d != '\\') rest, mode⟩

/-- The next token, which starts with `c`. -/
def nextStep (mode : Mode) (before : Option Char) (c : Char) (rest : List Char) : Step :=
  match mode with
  | .root => rootStep before c rest
  | .singleQuoted => stringStep '\'' .singleQuoted .singleQuoted c rest
  | .doubleQuoted => stringStep '"' .doubleQuoted .doubleQuoted c rest

/-! ## 4. All tokens -/

/-- The tokens of a text, and where the lexer stands at its end. -/
def lexFrom (mode : Mode) (before : Option Char) : List Char → List Token × Mode
  | [] => ([], mode)
  | c :: rest =>
    let step := nextStep mode before c rest
    let lexeme := c :: rest.take step.extra
    let (tokens, last) := lexFrom step.mode lexeme.getLast? (rest.drop step.extra)
    (⟨step.tokenClass, lexeme⟩ :: tokens, last)
termination_by s => s.length
decreasing_by
  simp only [List.length_drop, List.length_cons]
  omega

/-- The tokens of a text. -/
def tokens (s : List Char) : List Token :=
  (lexFrom .root none (prepare s)).1

theorem flatMap_lexeme_lexFrom (mode : Mode) (before : Option Char) (s : List Char) :
    (lexFrom mode before s).1.flatMap Token.lexeme = s := by
  fun_induction lexFrom mode before s with
  | case1 => rfl
  | case2 mode before c rest step lexeme tokens last h ih =>
    rw [h] at ih
    simp only [List.flatMap_cons, ih, lexeme, List.cons_append, List.take_append_drop]

theorem lexeme_ne_nil (mode : Mode) (before : Option Char) (s : List Char) :
    ∀ t ∈ (lexFrom mode before s).1, t.lexeme ≠ [] := by
  fun_induction lexFrom mode before s with
  | case1 => simp
  | case2 mode before c rest step lexeme tokens last h ih =>
    rw [h] at ih
    intro t ht
    rcases List.mem_cons.1 ht with rfl | ht
    · exact List.cons_ne_nil _ _
    · exact ih t ht

end Literals.Highlight
