/-
# Plain values

What a tree folds to: numbers, texts, truth values and collections without any trace of how they
were written.  **Numbers are equal by exact value, whatever their kind**: an integer, a truth
value, a binary number, a decimal and a complex number without imaginary part may all be the same
key.  Sets and dictionaries hold hashable values only, that is values without a list, set or
dictionary inside.

An integer of too many digits has no text, nor has a value with one inside; **which values have a
text** is asked where an error is about a value (`Value.writable`).
-/
import Literals.Number.Decimal
import Literals.Number.Binary64
import Literals.Keyed

namespace Literals

open Number

/-- A plain value.  Sets list their elements, and dictionaries their entries, in the order of
first occurrence. -/
inductive Value where
  | none
  | bool (b : Bool)
  | int (n : Int)
  | float (x : Binary64)
  | decimal (d : Decimal)
  | complex (re im : Binary64)
  | str (s : String)
  | tuple (elements : List Value)
  | list (elements : List Value)
  | set (elements : List Value)
  | dict (entries : List (Value × Value))

/-- A number without its kind: finite and exact, or infinite. -/
inductive Amount where
  | exact (x : Exact)
  | infinite (negative : Bool)
deriving DecidableEq, Repr

/-- The amount of a binary number; a NaN has none. -/
def Amount.ofBinary64? : Binary64 → Option Amount
  | .finite negative size => some (.exact (Binary64.exactValue negative size))
  | .infinite negative => some (.infinite negative)
  | .nan _ => Option.none

/-- The amount of an integer. -/
def Amount.ofInt (n : Int) : Amount :=
  .exact (Exact.ofInt n)

namespace Value

/-- The real and the imaginary amount of a number; nothing for a NaN and for other values. -/
def number? : Value → Option (Amount × Amount)
  | .bool b => some (.ofInt (if b then 1 else 0), .ofInt 0)
  | .int n => some (.ofInt n, .ofInt 0)
  | .float x => (Amount.ofBinary64? x).map fun a => (a, .ofInt 0)
  | .decimal d => some (.exact d.exactValue, .ofInt 0)
  | .complex re im =>
    match Amount.ofBinary64? re, Amount.ofBinary64? im with
    | some a, some b => some (a, b)
    | _, _ => Option.none
  | _ => Option.none

/-- Whether two values are numbers of the same amount. -/
def sameNumber (a b : Value) : Bool :=
  match a.number?, b.number? with
  | some x, some y => x == y
  | _, _ => false

mutual

/-- Equality of values, as sets and dictionaries use it for elements and keys. -/
def same : Value → Value → Bool
  | .none, .none => true
  | .str s, .str t => s == t
  | .float (.nan i), .float (.nan j) => i == j
  | .tuple xs, .tuple ys => pairwise xs ys
  | .list xs, .list ys => pairwise xs ys
  | .set xs, .set ys => xs.length == ys.length && subset xs ys
  | .dict xs, .dict ys => xs.length == ys.length && subsetEntries xs ys
  | a, b => sameNumber a b

/-- Whether two lists are the same element by element. -/
def pairwise : List Value → List Value → Bool
  | [], [] => true
  | x :: xs, y :: ys => x.same y && pairwise xs ys
  | _, _ => false

/-- Whether each element of the first list is found in the second. -/
def subset : List Value → List Value → Bool
  | [], _ => true
  | x :: xs, ys => ys.any (fun y => x.same y) && subset xs ys

/-- Whether each entry of the first list is found in the second. -/
def subsetEntries : List (Value × Value) → List (Value × Value) → Bool
  | [], _ => true
  | (k, v) :: xs, ys => ys.any (fun e => k.same e.1 && v.same e.2) && subsetEntries xs ys

end

mutual

/-- Whether a value can be an element of a set or a key of a dictionary. -/
def hashable : Value → Bool
  | .tuple xs => allHashable xs
  | .list _ => false
  | .set _ => false
  | .dict _ => false
  | _ => true

/-- Whether all values of a list can be elements of a set. -/
def allHashable : List Value → Bool
  | [] => true
  | x :: xs => x.hashable && allHashable xs

end

mutual

/-- Whether a value has a text: no integer in it has more than `longestInteger` digits. -/
def writable : Value → Bool
  | .int n => (digits n.natAbs).length ≤ longestInteger
  | .tuple xs => allWritable xs
  | .list xs => allWritable xs
  | .set xs => allWritable xs
  | .dict es => entriesWritable es
  | _ => true

/-- Whether all values of a list have a text. -/
def allWritable : List Value → Bool
  | [] => true
  | x :: xs => x.writable && allWritable xs

/-- Whether all keys and values of a list of entries have a text. -/
def entriesWritable : List (Value × Value) → Bool
  | [] => true
  | (k, v) :: es => k.writable && v.writable && entriesWritable es

end

end Value

end Literals
