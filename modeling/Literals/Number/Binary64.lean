/-
# Binary floating-point numbers of 64 bits

Every finite number of this format is a whole number of units of 2^-1074, namely a mantissa below
2^53 times a power of two; `Magnitude` keeps the one canonical pair for each, so **equal
magnitudes are equal data** and the sign of zero is data too.

Reading is exact: `Magnitude.nearest?` rounds a quotient of natural numbers, given in units, to
the nearest magnitude, ties to even, and answers nothing where the result would be too large.

A NaN carries a mark of the occurrence it stems from.  No NaN equals a number or a NaN
(`Binary64.eq`), but a collection finds the very occurrence that it holds (`Binary64.same`).
-/
import Literals.Number.Rounding
import Literals.Number.Exact

namespace Literals.Number

-- A power is the core library's, whatever else is in scope.
attribute [local instance (high)] instPowNat

/-! ## 1. Magnitudes -/

/-- The canonical pairs: a full mantissa, or any smaller one with shift zero. -/
def Canonical (mantissa shift : Nat) : Prop :=
  mantissa < 2 ^ (53 : Nat) ∧ shift ≤ 2045 ∧ (2 ^ (52 : Nat) ≤ mantissa ∨ shift = 0)

instance (mantissa shift : Nat) : Decidable (Canonical mantissa shift) :=
  inferInstanceAs (Decidable (_ ∧ _ ∧ _))

/-- A finite magnitude: `mantissa * 2 ^ shift` units of 2^-1074. -/
structure Magnitude where
  mantissa : Nat
  shift : Nat
  canonical : Canonical mantissa shift
deriving DecidableEq

/-- The magnitude as a number of units of 2^-1074. -/
def Magnitude.units (x : Magnitude) : Nat :=
  x.mantissa * 2 ^ x.shift

/-- The magnitude zero. -/
def Magnitude.zero : Magnitude :=
  ⟨0, 0, by decide⟩

/-- The magnitude nearest `n / d` units, a tie going to the even mantissa; nothing when that lies
above the greatest magnitude. -/
def Magnitude.nearest? (n d : Nat) : Option Magnitude :=
  let shift := (n / d).log2 - 52
  let mantissa := halfEven n (d * 2 ^ shift)
  let (mantissa, shift) :=
    if mantissa = 2 ^ (53 : Nat) then (2 ^ (52 : Nat), shift + 1) else (mantissa, shift)
  if h : Canonical mantissa shift then some ⟨mantissa, shift, h⟩ else none

/-! ## 2. Numbers -/

/-- A binary floating-point number of 64 bits. -/
inductive Binary64 where
  | finite (negative : Bool) (size : Magnitude)
  | infinite (negative : Bool)
  | nan (mark : Nat)
deriving DecidableEq

namespace Binary64

/-- Positive zero. -/
def zero : Binary64 :=
  .finite false .zero

/-- Whether the number is a NaN. -/
def isNaN : Binary64 → Bool
  | .nan _ => true
  | _ => false

/-- The nearest number to `± coefficient * 10 ^ exponent`, infinite beyond the greatest.  Where
the place of the first digit alone decides, no power of ten is computed: 10^310 is beyond the
greatest number, and 10^-330 is below half of the least. -/
def ofDecimal (negative : Bool) (coefficient : Nat) (exponent : Int) : Binary64 :=
  if coefficient = 0 then .finite negative .zero
  else
    let place : Int := (digits coefficient).length + exponent
    if 310 < place then .infinite negative
    else if place < -330 then .finite negative .zero
    else
      let nearest :=
        if 0 ≤ exponent then
          Magnitude.nearest? (coefficient * 10 ^ exponent.toNat * 2 ^ (1074 : Nat)) 1
        else Magnitude.nearest? (coefficient * 2 ^ (1074 : Nat)) (10 ^ (-exponent).toNat)
      match nearest with
      | some size => .finite negative size
      | none => .infinite negative

/-- A finite number as a signed count of units of 2^-1074. -/
def signedUnits (negative : Bool) (size : Magnitude) : Int :=
  if negative then -(size.units : Int) else size.units

/-- The exact value of a finite number: since 2^-1 is 5 * 10^-1, every unit is a decimal. -/
def exactValue (negative : Bool) (size : Magnitude) : Exact :=
  if 1074 ≤ size.shift then
    Exact.make negative (size.mantissa * 2 ^ (size.shift - 1074)) 0
  else
    let places := 1074 - size.shift
    Exact.make negative (size.mantissa * 5 ^ places) (-(places : Int))

/-- Equality of numbers: the zeros are equal, and a NaN equals nothing. -/
def eq : Binary64 → Binary64 → Bool
  | .finite s a, .finite t b => signedUnits s a == signedUnits t b
  | .infinite s, .infinite t => s == t
  | _, _ => false

/-- Equality as collections use it: a NaN is found again by its mark. -/
def same : Binary64 → Binary64 → Bool
  | .nan i, .nan j => i == j
  | a, b => a.eq b

/-- Whether the first number is the smaller; never so when one is a NaN. -/
def lt : Binary64 → Binary64 → Bool
  | .finite s a, .finite t b => signedUnits s a < signedUnits t b
  | .infinite s, .infinite t => s && !t
  | .finite _ _, .infinite t => !t
  | .infinite s, .finite _ _ => s
  | _, _ => false

end Binary64

end Literals.Number
