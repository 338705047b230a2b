/-
# Cursors

A cursor is a text and a position, which may lie past the end.  **A step that fails does not move
the cursor**, and only reading and peeking fail.
-/
import Literals.Reader.Cause
import Literals.Text.Blank

namespace Literals

/-- A movable position in a text. -/
structure Cursor where
  text : List Char
  position : Nat
deriving DecidableEq, Repr

namespace Cursor

/-- A cursor at the start of a text. -/
def start (text : String) : Cursor :=
  ⟨text.toList, 0⟩

/-- The text from the position on; empty past the end. -/
def remaining (c : Cursor) : List Char :=
  c.text.drop c.position

/-- Whether there is a character at the position. -/
def hasMore (c : Cursor) : Bool :=
  c.position < c.text.length

/-- Whether the position lies in the text or at its end, and the given text starts there. -/
def isAt (c : Cursor) (start : List Char) : Bool :=
  c.position ≤ c.text.length && start.isPrefixOf c.remaining

/-- The character at the position. -/
def peek (c : Cursor) : Except Cause Char :=
  match c.remaining with
  | [] => .error .endOfInput
  | d :: _ => .ok d

/-- Reads the character at the position. -/
def next (c : Cursor) : Except Cause (Char × Cursor) :=
  match c.remaining with
  | [] => .error .endOfInput
  | d :: _ => .ok (d, { c with position := c.position + 1 })

/-- Reads a number of characters, which must all exist. -/
def read (c : Cursor) (n : Nat) : Except Cause (List Char × Cursor) :=
  if c.text.length < c.position + n then .error .endOfInput
  else .ok (c.remaining.take n, { c with position := c.position + n })

/-- Reads the longest run of characters of a class. -/
def scan (c : Cursor) (inClass : Char → Bool) : List Char × Cursor :=
  let run := c.remaining.takeWhile inClass
  (run, { c with position := c.position + run.length })

/-- Reads the longest run of characters from a set. -/
def scanWhile (c : Cursor) (set : List Char) : List Char × Cursor :=
  c.scan fun d => set.contains d

/-- Reads up to the first character from a set. -/
def scanUntil (c : Cursor) (set : List Char) : List Char × Cursor :=
  c.scan fun d => !set.contains d

/-- Skips blanks. -/
def skipBlanks (c : Cursor) : Cursor :=
  (c.scan Text.isBlank).2

/-- Goes to a position. -/
def goTo (c : Cursor) (position : Nat) : Cursor :=
  { c with position := position }

/-- Goes back by a number of characters, forward by a negative one; never before the start. -/
def rewind (c : Cursor) (n : Int) : Cursor :=
  { c with position := (c.position - n).toNat }

end Cursor

end Literals
