/-
# Exact decimal numbers

`Exact` is a whole coefficient times a power of ten, kept in lowest terms: the coefficient does
not end in a zero, and zero has exponent zero.  **Two finite numbers of any kind are equal exactly
when their `Exact` forms are the same**, so the equality of integers, decimals and binary numbers
needs no conversion that could round.
-/

namespace Literals.Number

-- A power is the core library's, whatever else is in scope.
attribute [local instance (high)] instPowNat

/-- The decimal digits of a number, most significant first. -/
def digits (n : Nat) : List Char :=
  Nat.toDigits 10 n

/-- The number that a run of decimal digits denotes. -/
def ofDigits (ds : List Char) : Nat :=
  ds.foldl (fun n c => 10 * n + (c.toNat - '0'.toNat)) 0

/-- The most digits with which an integer is converted to text or from it. -/
def longestInteger : Nat := 4300

/-- Moves trailing zeros of a coefficient into the exponent, at most `fuel` of them. -/
def trimZeros : Nat → Nat → Int → Nat × Int
  | 0, n, e => (n, e)
  | fuel + 1, n, e => if n % 10 = 0 then trimZeros fuel (n / 10) (e + 1) else (n, e)

/-- A coefficient and an exponent with the same value, the coefficient not ending in a zero. -/
def lowestTerms (n : Nat) (e : Int) : Nat × Int :=
  if n = 0 then (0, 0) else trimZeros (n.log2 + 1) n e

/-- A finite number, `coefficient * 10 ^ exponent`, in lowest terms. -/
structure Exact where
  coefficient : Int
  exponent : Int
deriving DecidableEq, Repr

/-- The exact number with the given sign, coefficient and exponent. -/
def Exact.make (negative : Bool) (n : Nat) (e : Int) : Exact :=
  let r := lowestTerms n e
  ⟨if negative then -(r.1 : Int) else r.1, r.2⟩

/-- An integer as an exact number. -/
def Exact.ofInt (n : Int) : Exact :=
  Exact.make (n < 0) n.natAbs 0

/-- Whether the first number is the smaller.  Magnitudes are compared by the place of their first
digit before the coefficients are brought to one exponent, so the powers of ten stay small. -/
def Exact.lt (a b : Exact) : Bool :=
  if a.coefficient < 0 ∧ 0 ≤ b.coefficient then true
  else if 0 ≤ a.coefficient ∧ b.coefficient < 0 then false
  else if a.coefficient = 0 ∨ b.coefficient = 0 then a.coefficient < b.coefficient
  else
    let place (x : Exact) : Int := (digits x.coefficient.natAbs).length + x.exponent
    let low := min a.exponent b.exponent
    let aligned (x : Exact) : Nat := x.coefficient.natAbs * 10 ^ (x.exponent - low).toNat
    let less : Bool :=
      if place a = place b then aligned a < aligned b else place a < place b
    let more : Bool :=
      if place a = place b then aligned b < aligned a else place b < place a
    if a.coefficient < 0 then more else less

end Literals.Number
