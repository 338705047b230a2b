/-
# Decimal numbers of any precision

A sign, a coefficient and an exponent.  **The representation is kept as it was read**: `1.5` and
`1.50` differ as data and in print, and are equal as numbers; zero has a sign and an exponent.

Only finite decimals are considered.  No literal is read as any other; a tree with an infinite
decimal or a NaN among its decimals could only be put together by hand.
-/
import Literals.Number.Exact

namespace Literals.Number

/-- The finite decimal `± coefficient * 10 ^ exponent`.  Infinite ones and NaNs are left out. -/
structure Decimal where
  negative : Bool
  coefficient : Nat
  exponent : Int
deriving DecidableEq, Repr

namespace Decimal

/-- An integer as a decimal. -/
def ofInt (n : Int) : Decimal :=
  ⟨n < 0, n.natAbs, 0⟩

/-- The value, in lowest terms. -/
def exactValue (d : Decimal) : Exact :=
  Exact.make d.negative d.coefficient d.exponent

/-- Equality of values. -/
def eq (a b : Decimal) : Bool :=
  a.exactValue == b.exactValue

/-- Whether the first value is the smaller. -/
def lt (a b : Decimal) : Bool :=
  a.exactValue.lt b.exactValue

/-- A signed exponent, with its sign always written. -/
def signedText (e : Int) : List Char :=
  (if e < 0 then '-' else '+') :: digits e.natAbs

/-- The text of a decimal.  The digits are written with a point among them, or with zeros before
them, as long as no zero has to be added behind and at most five stand between the point and the
first digit; otherwise one digit stands before the point and an exponent follows. -/
def text (d : Decimal) : List Char :=
  let ds := digits d.coefficient
  let point : Int := d.exponent + ds.length
  let sign := if d.negative then ['-'] else []
  if d.exponent ≤ 0 ∧ -6 < point then
    if point ≤ 0 then
      sign ++ '0' :: '.' :: (List.replicate (-point).toNat '0' ++ ds)
    else if d.exponent = 0 then sign ++ ds
    else sign ++ ds.take point.toNat ++ '.' :: ds.drop point.toNat
  else
    let exponent := 'E' :: signedText (point - 1)
    match ds with
    | [] => sign ++ exponent
    | [c] => sign ++ c :: exponent
    | c :: rest => sign ++ c :: '.' :: (rest ++ exponent)

end Decimal

end Literals.Number
