/-
# Scalars

The leaves of a tree that carry one number, truth value or text.  Integers come in three kinds by
their size: **the kind is the narrowest whose range holds the value** (`Scalar.ofInt`), and past
64 bits the payload is a decimal.

Decimals are finite here, and a text consists of Unicode scalar values: lone surrogates are left
out, as every encoding in UTF-8 leaves them out.
-/
import Literals.Number.Numeral
import Literals.Number.FloatText

namespace Literals

-- A power is the core library's, whatever else is in scope.
attribute [local instance (high)] instPowNat

open Number

/-- The kinds of scalars. -/
inductive ScalarKind where
  | int
  | long
  | float
  | decimal
  | bool
  | str
deriving DecidableEq, Repr

/-- The name of a kind. -/
def ScalarKind.name : ScalarKind → String
  | .int => "int"
  | .long => "long"
  | .float => "float"
  | .decimal => "decimal"
  | .bool => "bool"
  | .str => "str"

/-- The integers of 32 bits. -/
def InInt32 (n : Int) : Prop :=
  -2 ^ (31 : Nat) ≤ n ∧ n < 2 ^ (31 : Nat)

/-- The integers of 64 bits. -/
def InInt64 (n : Int) : Prop :=
  -2 ^ (63 : Nat) ≤ n ∧ n < 2 ^ (63 : Nat)

instance (n : Int) : Decidable (InInt32 n) :=
  inferInstanceAs (Decidable (_ ∧ _))

instance (n : Int) : Decidable (InInt64 n) :=
  inferInstanceAs (Decidable (_ ∧ _))

/-- The narrowest kind of integer that holds a value. -/
def ScalarKind.ofInt (n : Int) : ScalarKind :=
  if InInt32 n then .int else if InInt64 n then .long else .decimal

/-- A scalar, by kind. -/
inductive Scalar where
  | int (n : Int)
  | long (n : Int)
  | float (x : Binary64)
  | decimal (d : Decimal)
  | bool (b : Bool)
  | str (s : String)
deriving DecidableEq

namespace Scalar

/-- The kind of a scalar. -/
def kind : Scalar → ScalarKind
  | .int _ => .int
  | .long _ => .long
  | .float _ => .float
  | .decimal _ => .decimal
  | .bool _ => .bool
  | .str _ => .str

/-- An integer as a scalar of the narrowest kind. -/
def ofInt (n : Int) : Scalar :=
  if InInt32 n then .int n else if InInt64 n then .long n else .decimal (.ofInt n)

/-- Equality: same kind and equal payload. -/
def eq : Scalar → Scalar → Bool
  | .int m, .int n => m == n
  | .long m, .long n => m == n
  | .float x, .float y => x.eq y
  | .decimal d, .decimal e => d.eq e
  | .bool b, .bool c => b == c
  | .str s, .str t => s == t
  | _, _ => false

/-- Equality as collections use it: a NaN is found again by its mark. -/
def same : Scalar → Scalar → Bool
  | .float x, .float y => x.same y
  | a, b => a.eq b

/-- Whether the first payload is the smaller; nothing for scalars of different kinds.  Texts
compare by code point. -/
def lt? : Scalar → Scalar → Option Bool
  | .int m, .int n => some (m < n)
  | .long m, .long n => some (m < n)
  | .float x, .float y => some (x.lt y)
  | .decimal d, .decimal e => some (d.lt e)
  | .bool b, .bool c => some (!b && c)
  | .str s, .str t => some (s < t)
  | _, _ => none

theorem kind_ofInt (n : Int) : (ofInt n).kind = ScalarKind.ofInt n := by
  unfold ofInt ScalarKind.ofInt
  split
  · rfl
  · split <;> rfl

end Scalar

end Literals
