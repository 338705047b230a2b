/-
# Decimal text of binary numbers

**The digits are the fewest that read back, and the nearest of those.**  `shortest` tries one
digit, then two, up to seventeen; at each length only the two neighbours of the value on that
decimal grid can read back.  Should none do, all digits of the value are used, which always read
back.  A `FloatStyle` says how digits are laid out.
-/
import Literals.Number.Binary64

namespace Literals.Number

-- A power is the core library's, whatever else is in scope.
attribute [local instance (high)] instPowNat

/-! ## 1. Which digits -/

/-- The place of the first digit of `n / d`: the greatest `p` with `10 ^ p ≤ n / d`. -/
def leadingPlace (n d : Nat) : Int :=
  if d ≤ n then ((digits (n / d)).length : Int) - 1
  else -((digits ((d - 1) / n)).length : Int)

/-- Whether a decimal reads back as the magnitude. -/
def readsBack (size : Magnitude) (coefficient : Nat) (exponent : Int) : Bool :=
  Binary64.ofDecimal false coefficient exponent == .finite false size

/-- The better of the two neighbours of `n / d` on the grid of `10 ^ exponent` that read back as
the magnitude, if any does: the nearer one, of two equally near the even one. -/
def onGrid? (size : Magnitude) (n d : Nat) (exponent : Int) : Option (Nat × Int) :=
  let num := if 0 ≤ exponent then n else n * 10 ^ (-exponent).toNat
  let den := if 0 ≤ exponent then d * 10 ^ exponent.toNat else d
  let below := num / den
  let nearest := halfEven num den
  let other := if nearest = below then below + 1 else below
  if readsBack size nearest exponent then some (nearest, exponent)
  else if readsBack size other exponent then some (other, exponent)
  else none

/-- All digits of a magnitude, as a coefficient and an exponent. -/
def allDigits (size : Magnitude) : Nat × Int :=
  if 1074 ≤ size.shift then (size.mantissa * 2 ^ (size.shift - 1074), 0)
  else (size.mantissa * 5 ^ (1074 - size.shift), -((1074 - size.shift : Nat) : Int))

/-- The first grid with a neighbour that reads back, from `count` digits on. -/
def firstGrid (size : Magnitude) (n d : Nat) (place : Int) : List Nat → Nat × Int
  | [] => allDigits size
  | count :: counts =>
    match onGrid? size n d (place - count + 1) with
    | some r => r
    | none => firstGrid size n d place counts

/-- The shortest decimal that reads back as the magnitude, in lowest terms. -/
def shortest (size : Magnitude) : Nat × Int :=
  let n := size.units
  let d := 2 ^ (1074 : Nat)
  if n = 0 then (0, 0)
  else
    let r := firstGrid size n d (leadingPlace n d) (List.range' 1 17)
    lowestTerms r.1 r.2

/-! ## 2. How they are laid out -/

/-- A layout: the exponents of the first digit that are written without one, whether a whole
number keeps `.0`, the least number of exponent digits, and the names of the infinities and of a
NaN. -/
structure FloatStyle where
  lowest : Int
  highest : Int
  keepsPointZero : Bool
  exponentDigits : Nat
  infinity : List Char
  negativeInfinity : List Char
  notANumber : List Char

/-- Digits in positional notation; `point` digits stand before the point. -/
def positional (style : FloatStyle) (ds : List Char) (point : Int) : List Char :=
  if point ≤ 0 then '0' :: '.' :: (List.replicate (-point).toNat '0' ++ ds)
  else if ds.length ≤ point.toNat then
    ds ++ List.replicate (point.toNat - ds.length) '0' ++
      (if style.keepsPointZero then ['.', '0'] else [])
  else ds.take point.toNat ++ '.' :: ds.drop point.toNat

/-- Digits with an exponent of ten; one digit stands before the point. -/
def scientific (style : FloatStyle) (ds : List Char) (exponent : Int) : List Char :=
  let es := digits exponent.natAbs
  let mark := 'e' :: (if exponent < 0 then '-' else '+') ::
    (List.replicate (style.exponentDigits - es.length) '0' ++ es)
  match ds with
  | [] => mark
  | [c] => c :: mark
  | c :: rest => c :: '.' :: (rest ++ mark)

/-- The digits of a magnitude in a given layout. -/
def magnitudeText (style : FloatStyle) (size : Magnitude) : List Char :=
  let r := shortest size
  let ds := digits r.1
  let exponent := r.2 + ds.length - 1
  if style.lowest ≤ exponent ∧ exponent < style.highest then positional style ds (exponent + 1)
  else scientific style ds exponent

/-- The text of a number in a given layout. -/
def Binary64.text (style : FloatStyle) : Binary64 → List Char
  | .finite negative size => (if negative then ['-'] else []) ++ magnitudeText style size
  | .infinite negative => if negative then style.negativeInfinity else style.infinity
  | .nan _ => style.notANumber

/-- How numbers are shown: positional from 10^-4 up to 10^16, whole ones with `.0`. -/
def FloatStyle.shown : FloatStyle :=
  ⟨-4, 16, true, 2, ['i', 'n', 'f'], ['-', 'i', 'n', 'f'], ['n', 'a', 'n']⟩

/-- How the parts of a complex number are shown: as numbers, without `.0`. -/
def FloatStyle.shownPart : FloatStyle :=
  { FloatStyle.shown with keepsPointZero := false }

/-- How numbers are written as literals: as they are shown, except that an infinity is an exponent
that overflows again. -/
def FloatStyle.literal : FloatStyle :=
  { FloatStyle.shown with
    infinity := ['1', 'e', '3', '0', '0', '0', '0']
    negativeInfinity := ['-', '1', 'e', '3', '0', '0', '0', '0'] }

end Literals.Number
