/-
# Reading rules

A rule starts at a point of the text and either finds something or fails; **in both cases it says
at which point it stopped**.  A failed rule does not go back by itself: whoever tries another rule
does that.  Rules may run inside any monad, so that the same rules serve a reader that remembers
what it found and one that does not.

The text is a list of Unicode scalar values.  A text with a lone surrogate is not considered; none
is decoded from bytes (`Text.Utf8.decode`).
-/
import Literals.Reader.Cause
import Literals.Text.Blank

namespace Literals.Reader

/-! ## 1. Points -/

/-- A place in a text: how many characters lie before it, and what is left from there on. -/
structure Point where
  offset : Nat
  rest : List Char
deriving DecidableEq, Repr

namespace Point

/-- The start of a text. -/
def start (text : List Char) : Point :=
  ⟨0, text⟩

/-- The longest run of characters of a class from a point on, and the point after it. -/
def span (p : Point) (inClass : Char → Bool) : List Char × Point :=
  let run := p.rest.takeWhile inClass
  (run, ⟨p.offset + run.length, p.rest.dropWhile inClass⟩)

/-- The first point from here on that does not hold a blank. -/
def skipBlanks (p : Point) : Point :=
  (p.span Text.isBlank).2

end Point

/-! ## 2. Rules -/

/-- What a rule found, or why it failed, and where it stopped. -/
inductive Outcome (α : Type) where
  | ok (value : α) (stop : Point)
  | failed (cause : Cause) (stop : Point)

namespace Outcome

/-- Where the rule stopped. -/
def stop {α : Type} : Outcome α → Point
  | .ok _ p => p
  | .failed _ p => p

end Outcome

/-- A rule that reads an `α` from a point on. -/
def Rule (m : Type → Type) (α : Type) : Type :=
  Point → m (Outcome α)

namespace Rule

variable {m : Type → Type} [Monad m] {α β : Type}

instance : Monad (Rule m) where
  pure a := fun p => pure (.ok a p)
  bind r k := fun p => do
    match ← r p with
    | .ok a q => k a q
    | .failed c q => pure (.failed c q)

/-- Fails where it stands. -/
def fail (c : Cause) : Rule m α :=
  fun p => pure (.failed c p)

/-- A rule that runs in no monad, in any monad. -/
def lift (r : Rule Id α) : Rule m α :=
  fun p => pure (r p).run

/-! ## 3. Single characters -/

/-- The point reached. -/
def here : Rule m Point :=
  fun p => pure (.ok p p)

/-- Goes on from another point. -/
def goTo (q : Point) : Rule m Unit :=
  fun _ => pure (.ok () q)

/-- The next character, if there is one; nothing is read. -/
def ahead : Rule m (Option Char) :=
  fun p => pure (.ok p.rest.head? p)

/-- The next character, which must exist; it is not read. -/
def peek : Rule m Char :=
  fun p => pure <|
    match p.rest with
    | [] => .failed .endOfInput p
    | c :: _ => .ok c p

/-- Reads the next character, which must exist. -/
def next : Rule m Char :=
  fun p => pure <|
    match p.rest with
    | [] => .failed .endOfInput p
    | c :: rest => .ok c ⟨p.offset + 1, rest⟩

/-- Skips blanks. -/
def blanks : Rule m Unit :=
  fun p => pure (.ok () p.skipBlanks)

/-- Reads the longest run of characters of a class; the run may be empty. -/
def takeWhile (inClass : Char → Bool) : Rule m (List Char) :=
  fun p => pure (.ok (p.span inClass).1 (p.span inClass).2)

/-- Reads one character of a class, if one comes next. -/
def oneOf (inClass : Char → Bool) : Rule m (List Char) :=
  fun p => pure <|
    match p.rest with
    | [] => .ok [] p
    | c :: rest => if inClass c then .ok [c] ⟨p.offset + 1, rest⟩ else .ok [] p

/-- Reads a word, if it comes next, and tells whether it did. -/
def word (w : List Char) : Rule m Bool :=
  fun p => pure <|
    if w.isPrefixOf p.rest then .ok true ⟨p.offset + w.length, p.rest.drop w.length⟩
    else .ok false p

/-- Reads one character, which must be the given one; a wrong one is read all the same. -/
def mark (c : Char) (otherwise : Cause) : Rule m Unit := do
  match ← ahead with
  | none => fail otherwise
  | some d =>
    let _ ← next
    if d = c then pure () else fail otherwise

end Rule

end Literals.Reader
