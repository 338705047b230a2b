/-
# Sets of characters given by ranges of code points

Every character class beyond ASCII in this library is a list of closed ranges.  The list is
data; what it means is `RangeTable.contains`.
-/

namespace Literals.Text

/-- A set of code points, as closed ranges in ascending order. -/
abbrev RangeTable := List (Nat × Nat)

/-- Whether the character's code point lies in one of the ranges. -/
def RangeTable.contains (t : RangeTable) (c : Char) : Bool :=
  t.any fun r => r.1 ≤ c.toNat && c.toNat ≤ r.2

theorem RangeTable.contains_iff (t : RangeTable) (c : Char) :
    t.contains c = true ↔ ∃ r ∈ t, r.1 ≤ c.toNat ∧ c.toNat ≤ r.2 := by
  simp [RangeTable.contains, List.any_eq_true]

end Literals.Text
