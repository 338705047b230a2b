/-
# The reader that remembers

A set and a dictionary, or a complex number and a tuple, may start at the same bracket, and inside
them the same again; to read every compound once, the outcome at each opening bracket is kept
under its offset.  **A nesting-depth failure is never kept**, since it depends on how deep the
reader stood.

A `Session` is a text being read: it may be asked for one expression after another, and each
reading goes on where the last one stopped, with everything remembered.
-/
import Literals.Reader.Grammar
import Std.Data.HashMap

namespace Literals.Reader

/-! ## 1. Memory -/

/-- What a reader remembers: the outcome for each offset at which a compound has been read, the
retries, last first, and the offsets at which the reading of a compound began, last first. -/
structure Memory where
  outcomes : Std.HashMap Nat (Outcome Node)
  retries : List Retry
  begun : List Nat

/-- Nothing remembered. -/
def Memory.empty : Memory :=
  ⟨∅, [], []⟩

/-- Whether an outcome holds whenever the same offset is read again. -/
def Outcome.isLasting : Outcome Node → Bool
  | .ok _ _ => true
  | .failed c _ => !c.isFinal

namespace Memory

/-- The outcome known for an offset. -/
def known? (s : Memory) (o : Nat) : Option (Outcome Node) :=
  s.outcomes[o]?

/-- The reading of a compound begins. -/
def beginning (s : Memory) (o : Nat) : Memory :=
  { s with begun := o :: s.begun }

/-- The outcome of a compound is kept, where it is lasting. -/
def keeping (s : Memory) (o : Nat) (found : Outcome Node) : Memory :=
  if found.isLasting then { s with outcomes := s.outcomes.insert o found } else s

/-- A retry is noted. -/
def retrying (s : Memory) (r : Retry) : Memory :=
  { s with retries := r :: s.retries }

end Memory

/-! ## 2. Looking up -/

/-- How the state of a reader takes part when a compound at some offset is looked up: the outcome
that is known, and what changes when that is given again, when a reading begins, and when the
reading is over. -/
structure Keeper (σ : Type) where
  known? : σ → Nat → Option (Outcome Node)
  replaying : σ → Nat → σ
  beginning : σ → Nat → σ
  keeping : σ → Nat → Outcome Node → σ

/-- Reads a compound unless its outcome is known. -/
def Keeper.recalled {σ : Type} (κ : Keeper σ) (r : Rule (StateM σ) Node) :
    Rule (StateM σ) Node := fun p => do
  match κ.known? (← get) p.offset with
  | some known =>
    modify fun s => κ.replaying s p.offset
    pure known
  | none =>
    modify fun s => κ.beginning s p.offset
    let found ← r p
    modify fun s => κ.keeping s p.offset found
    pure found

/-- A memory gives what it knows, and stays as it is then. -/
def Memory.keeper : Keeper Memory :=
  ⟨Memory.known?, fun s _ => s, Memory.beginning, Memory.keeping⟩

/-- Reads a compound unless its outcome is known, and keeps the outcome where it is lasting. -/
def recalled (r : Rule (StateM Memory) Node) : Rule (StateM Memory) Node :=
  Memory.keeper.recalled r

/-- The reader that remembers compounds and logs retries. -/
def Strategy.remembering : Strategy (StateM Memory) :=
  ⟨fun r => modify fun s => s.retrying r, recalled, Rule.fail .endOfInput⟩

/-! ## 3. Sessions -/

/-- A text being read: the nesting limit, the point reached, and the memory. -/
structure Session where
  limit : Option Int
  point : Point
  memory : Memory

namespace Session

/-- A session at the start of a text. -/
def start (text : String) (limit : Option Int) : Session :=
  ⟨limit, .start text.toList, .empty⟩

/-- Reads the rest of the text as one expression.  An error carries the offset at which the
reading stopped. -/
def read (s : Session) : Except Fault Tree × Session :=
  let (outcome, memory) := (Strategy.remembering.document s.limit s.point).run s.memory
  let after : Session := ⟨s.limit, outcome.stop, memory⟩
  match outcome with
  | .ok root _ => (.ok ⟨root⟩, after)
  | .failed c stop => (.error ((Fault.ofCause c).annotate stop.offset), after)

/-- The log of the retries so far, first first. -/
def log (s : Session) : List String :=
  (s.memory.retries.map Retry.message).reverse

end Session

/-- Reads a text as one expression. -/
def read (text : String) (limit : Option Int) : Except Fault Tree :=
  (Session.start text limit).read.1

/-- Reads a text as one expression by the rules alone, without remembering anything. -/
def readPlainly (text : String) (limit : Option Int) : Except Fault Tree :=
  match (Strategy.plain.document limit (.start text.toList)).run with
  | .ok root _ => .ok ⟨root⟩
  | .failed c stop => .error ((Fault.ofCause c).annotate stop.offset)

end Literals.Reader
