/-
# A reader that keeps account of itself

A `Session` has only what its answers depend on: how many compounds are open is an argument of the
rules, a failure is a cause, and the caller alone gets an error.  The reader here has the rest as
well.  It counts the open compounds up and down, and knows where they were opened.  Its errors are
objects: one is made, raised, kept for an offset and raised again from there, and **whoever gets an
error gets a copy with the position**.  And whenever a compound is opened or closed, it writes down
what is open and kept; since an outcome is kept right before its compound is closed, nothing that
was ever kept is missing there.

It is made from the same rules as the others, with a strategy of its own.  The number of characters
left, on which the rules recur, is only a bound here: where it is used up before the text is,
anything may happen (`spare`).
-/
import Literals.Reader.Session

namespace Literals.Reader

/-! ## 1. Accounts -/

/-- What a reader keeps and has open at some time: its memory; the errors kept for the offsets of
compounds that failed, by their numbers; how many compounds are open; and the offsets of these,
innermost first. -/
structure Snapshot where
  memory : Memory
  kept : Std.HashMap Nat Nat
  depth : Nat
  opened : List Nat

/-- What is kept and open now; all errors made so far, first first; the number of the error under
way; and what was kept and open whenever a compound was opened or closed, last first. -/
structure Account extends Snapshot where
  errors : List Fault
  raised : Option Nat
  past : List Snapshot

namespace Account

/-- The account of a reader that has read nothing. -/
def empty : Account :=
  ⟨⟨.empty, ∅, 0, []⟩, [], none, []⟩

/-- What is kept and open now, and what was before. -/
def snapshots (w : Account) : List Snapshot :=
  w.toSnapshot :: w.past

/-- A compound is opened. -/
def opening (w : Account) (o : Nat) : Account :=
  let m : Snapshot := { w.toSnapshot with depth := w.depth + 1, opened := o :: w.opened }
  { w with toSnapshot := m, past := m :: w.past }

/-- The compound that was opened last is closed. -/
def closing (w : Account) : Account :=
  { w with depth := w.depth - 1, opened := w.opened.tail, past := w.toSnapshot :: w.past }

/-- The reading of a compound begins. -/
def beginning (w : Account) (o : Nat) : Account :=
  { w with memory := w.memory.beginning o }

/-- After a failure there is an error under way: a new one, if there is none yet. -/
def raising {α : Type} (w : Account) : Outcome α → Account
  | .ok _ _ => w
  | .failed c _ =>
    if w.raised.isSome then w
    else { w with errors := w.errors ++ [.ofCause c], raised := some w.errors.length }

/-- A lasting outcome is kept, with the error under way. -/
def keeping (w : Account) (o : Nat) (found : Outcome Node) : Account :=
  { w with
    memory := w.memory.keeping o found
    kept := if found.isLasting then w.kept.alter o fun _ => w.raised else w.kept }

/-- The error kept for an offset is raised again, if there is one. -/
def replaying (w : Account) (o : Nat) : Account :=
  { w with raised := w.kept[o]? }

/-- A retry is noted, and the error under way goes no further. -/
def retrying (w : Account) (r : Retry) : Account :=
  { w with memory := w.memory.retrying r, raised := none }

/-- The error under way goes no further; a copy of it is made that has the position. -/
def annotating (w : Account) (position : Int) : Account :=
  let copies := (w.raised.bind fun e => w.errors[e]?).toList.map (Fault.annotate · position)
  { w with errors := w.errors ++ copies, raised := none }

/-! ## 2. The reader -/

/-- What is done before a retry. -/
def note (r : Retry) : StateM Account Unit :=
  modify fun w => w.retrying r

/-- With an outcome that is known comes the error that was kept with it; and one that is kept gets
the error under way. -/
def keeper : Keeper Account where
  known? w := w.memory.known?
  replaying := replaying
  beginning := beginning
  keeping w o found := (w.raising found).keeping o found

/-- Reads a compound where the limit allows one more.  It is closed again however that ends. -/
def compound (limit : Option Int) (r : Rule (StateM Account) Node) : Rule (StateM Account) Node :=
  fun p => do
    modify fun w => w.opening p.offset
    let w ← get
    -- The compound counts among those that the limit is about.
    let found ← (enter limit w.depth >>= fun _ => keeper.recalled r : Rule (StateM Account) Node) p
    modify fun w => w.closing
    pure found

/-- The reader that keeps account.  It counts the open compounds itself, so the rules need not. -/
def strategy (spare : Rule (StateM Account) Node) (limit : Option Int) :
    Strategy (StateM Account) where
  note := note
  compound := compound limit
  spare := fun p => if p.rest = [] then Rule.fail .endOfInput p else spare p

/-- An expression with blanks around it. -/
def expression (spare : Rule (StateM Account) Node) (limit : Option Int) (count : Nat) :
    Rule (StateM Account) Node :=
  (strategy spare limit).expression none count 0

/-- A text that is exactly one expression. -/
def document (spare : Rule (StateM Account) Node) (limit : Option Int) :
    Rule (StateM Account) Node :=
  (strategy spare limit).document none

end Account

/-! ## 3. Sessions -/

/-- A text being read, as in `Session`, with an account. -/
structure AccountedSession where
  limit : Option Int
  point : Point
  account : Account

namespace AccountedSession

/-- A session at the start of a text. -/
def start (text : String) (limit : Option Int) : AccountedSession :=
  ⟨limit, .start text.toList, .empty⟩

/-- Reads the rest of the text as one expression.  Of an error, the caller gets the number of the
copy that is made last. -/
def read (spare : Rule (StateM Account) Node) (s : AccountedSession) :
    Except Nat Tree × AccountedSession :=
  let (found, w) := (Account.document spare s.limit s.point).run s.account
  match found with
  | .ok root q => (.ok ⟨root⟩, ⟨s.limit, q, w⟩)
  | .failed _ q =>
    let w := w.raising found
    (.error w.errors.length, ⟨s.limit, q, w.annotating q.offset⟩)

/-- The session after so many readings. -/
def after (spare : Rule (StateM Account) Node) (s : AccountedSession) : Nat → AccountedSession
  | 0 => s
  | count + 1 => (s.after spare count |>.read spare).2

end AccountedSession

end Literals.Reader
