/-
# Rules for whole expressions

The compound literals share first characters: `{` opens a set or a dictionary, `(` a complex
number or a tuple, and a digit starts any number.  Where two rules share one, `attempt` tries the
first and, should it fail, goes back and tries the second; **a nesting-depth failure is final**.

What differs between readers is kept in a `Strategy`: what they do with a retry, how they read a
compound of which they know the rule, and what they would do if the rules did not get on.  Everything
nested is reached through `Strategy.expression`, whose first argument is the number of characters
left: an expression within an expression starts at least one character later.
-/
import Literals.Reader.Leaf

namespace Literals.Reader

/-! ## 1. Alternatives -/

/-- The rules that another one may follow. -/
inductive Trial where
  | set
  | complex
  | float
deriving DecidableEq, Repr

/-- The name of a tried rule, as logs show it. -/
def Trial.name : Trial → String
  | .set => "_parse_set"
  | .complex => "_parse_complex"
  | .float => "_parse_float"

/-- A tried rule that failed: where and why, and where the next one starts. -/
structure Retry where
  trial : Trial
  failedAt : Nat
  cause : Cause
  resumeAt : Nat
deriving DecidableEq, Repr

/-- The line of a log about a retry. -/
def Retry.message (r : Retry) : String :=
  r.trial.name ++ " failed at " ++ toString r.failedAt ++ " (" ++ r.cause.reason ++
    "), rewinding to " ++ toString r.resumeAt

/-- What a reader does beside following the rules: it notes retries, and it may answer for a
compound from what it knows.  Where the number of characters left is used up, `spare` comes in place
of an expression; nothing is left there, so it fails. -/
structure Strategy (m : Type → Type) where
  note : Retry → m Unit
  compound : Rule m Node → Rule m Node
  spare : Rule m Node

/-- The reader that only follows the rules. -/
def Strategy.plain : Strategy Id :=
  ⟨fun _ => (), fun r => r, Rule.fail .endOfInput⟩

variable {m : Type → Type} [Monad m]

/-- Tries a rule and, unless its failure is final, another one from the same point. -/
def attempt (note : Retry → m Unit) (trial : Trial) (first second : Rule m Node) : Rule m Node :=
  fun p => do
    match ← first p with
    | .ok x q => pure (.ok x q)
    | .failed c q =>
      if c.isFinal then pure (.failed c q)
      else
        note ⟨trial, q.offset, c, p.offset⟩
        second p

/-! ## 2. Parts of compounds -/

/-- Reads a closing bracket; where `trailing`, a comma and blanks may come before it. -/
def close (c : Char) (trailing : Bool) : Rule m Unit := do
  match ← Rule.ahead with
  | none => Rule.fail (.missingClose c)
  | some d =>
    let _ ← Rule.next
    if d = ',' ∧ trailing then
      Rule.blanks
      match ← Rule.ahead with
      | none => Rule.fail (.missingClose c)
      | some e =>
        let _ ← Rule.next
        if e = c then pure () else Rule.fail (.expectedClose c)
    else if d = c then pure () else Rule.fail (.expectedClose c)

/-- The elements after the first, each with a comma before it, at most `count` of them.  Where
`closing` comes right after a comma, that comma is left unread. -/
def more (expr : Rule m Node) (closing : Option Char) : Nat → Rule m (List Node)
  | 0 => pure []
  | count + 1 => do
    if (← Rule.ahead) = some ',' then
      let before ← Rule.here
      let _ ← Rule.next
      Rule.blanks
      let after ← Rule.ahead
      if closing.isSome ∧ after = closing then
        Rule.goTo before
        pure []
      else
        let x ← expr
        let xs ← more expr closing count
        pure (x :: xs)
    else pure []

/-- One element or more. -/
def elements (expr : Rule m Node) (closing : Option Char) : Rule m (List Node) := do
  let x ← expr
  let p ← Rule.here
  let xs ← more expr closing p.rest.length
  pure (x :: xs)

/-- A key, a colon and a value. -/
def entry (expr : Rule m Node) : Rule m (Node × Node) := do
  let key ← expr
  if (← Rule.ahead) = some ':' then
    let _ ← Rule.next
    let value ← expr
    pure (key, value)
  else Rule.fail .expectedColon

/-- The entries after the first, each with a comma before it, at most `count` of them. -/
def moreEntries (expr : Rule m Node) : Nat → Rule m (List (Node × Node))
  | 0 => pure []
  | count + 1 => do
    if (← Rule.ahead) = some ',' then
      let _ ← Rule.next
      let e ← entry expr
      let es ← moreEntries expr count
      pure (e :: es)
    else pure []

/-! ## 3. Compounds -/

/-- A list. -/
def list (expr : Rule m Node) : Rule m Node := do
  let _ ← Rule.next
  Rule.blanks
  if (← Rule.peek) = ']' then
    let _ ← Rule.next
    pure (.list [])
  else
    let xs ← elements expr none
    close ']' false
    pure (.list xs)

/-- A set, which has at least one element. -/
def set (expr : Rule m Node) : Rule m Node := do
  let _ ← Rule.next
  let xs ← elements expr none
  close '}' false
  pure (.set xs)

/-- A dictionary. -/
def dict (expr : Rule m Node) : Rule m Node := do
  let _ ← Rule.next
  Rule.blanks
  if (← Rule.peek) = '}' then
    let _ ← Rule.next
    pure (.dict [])
  else
    let e ← entry expr
    let p ← Rule.here
    let es ← moreEntries expr p.rest.length
    close '}' false
    pure (.dict (e :: es))

/-- A tuple: empty, of one element with a comma after it, or of more with or without one. -/
def tuple (expr : Rule m Node) : Rule m Node := do
  let _ ← Rule.next
  Rule.blanks
  if (← Rule.peek) = ')' then
    let _ ← Rule.next
    pure (.tuple [])
  else
    let x ← expr
    match ← Rule.ahead with
    | none => Rule.fail (.missingClose ')')
    | some c =>
      if c = ',' then
        let _ ← Rule.next
        Rule.blanks
        if (← Rule.ahead) = some ')' then
          let _ ← Rule.next
          pure (.tuple [x])
        else
          let xs ← elements expr (some ')')
          close ')' true
          pure (.tuple (x :: xs))
      else Rule.fail .expectedComma

/-- A compound literal, from its opening bracket on. -/
def bracketed (note : Retry → m Unit) (expr : Rule m Node) : Rule m Node := do
  let c ← Rule.peek
  if c = '[' then list expr
  else if c = '{' then attempt note .set (set expr) (dict expr)
  else attempt note .complex (Rule.lift complex) (tuple expr)

/-! ## 4. Expressions -/

/-- A literal that is no compound. -/
def single (note : Retry → m Unit) : Rule m Node := do
  let c ← Rule.peek
  if c = 'N' then Rule.lift noneLiteral
  else if c = 'T' ∨ c = 'F' then Rule.lift bool
  else if isQuote c then Rule.lift string
  else
    attempt note .complex (Rule.lift complex)
      (attempt note .float (Rule.lift float) (Rule.lift integer))

/-- Fails when more compounds are open than the limit allows. -/
def enter (limit : Option Int) (depth : Nat) : Rule m Unit :=
  match limit with
  | none => pure ()
  | some n => if n < depth then Rule.fail (.nestingDepth n) else pure ()

namespace Strategy

/-- An expression with blanks around it, at most `count` characters before the end of the text and
inside `depth` open compounds. -/
def expression (σ : Strategy m) (limit : Option Int) : Nat → Nat → Rule m Node
  | 0, _ => σ.spare
  | count + 1, depth => do
    Rule.blanks
    let c ← Rule.peek
    let x ←
      if isOpening c then do
        enter limit (depth + 1)
        σ.compound (bracketed σ.note (expression σ limit count (depth + 1)))
      else single σ.note
    Rule.blanks
    pure x

/-- A text that is exactly one expression. -/
def document (σ : Strategy m) (limit : Option Int) : Rule m Node := do
  Rule.blanks
  let p ← Rule.here
  if p.rest = [] then Rule.fail .emptyExpression
  else
    let root ← σ.expression limit p.rest.length 0
    if (← Rule.ahead) = none then pure root else Rule.fail .trailingText

end Strategy

end Literals.Reader
