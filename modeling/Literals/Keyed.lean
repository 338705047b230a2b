/-
# Lists kept distinct, and lists of entries with distinct keys

Sets and dictionaries of this library are lists in order of first occurrence.  Which elements
count as one is a parameter `same`, because trees and values have different notions of it.

**The first occurrence stays, the last value wins**: `distinct` keeps the first of each class, and
`put` under a key already there keeps the key and its place and replaces the value.
-/

namespace Literals.Keyed

variable {α κ ν : Type}

/-- The elements without those that are the same as an earlier one. -/
def distinct (same : α → α → Bool) : List α → List α
  | [] => []
  | x :: xs => x :: (distinct same xs).filter fun y => !same x y

/-- Sets the value under a key: in place where the key is known, else at the end. -/
def put (same : κ → κ → Bool) (key : κ) (value : ν) : List (κ × ν) → List (κ × ν)
  | [] => [(key, value)]
  | e :: es => if same e.1 key then (e.1, value) :: es else e :: put same key value es

/-- Puts all pairs, in order. -/
def ofPairs (same : κ → κ → Bool) (ps : List (κ × ν)) : List (κ × ν) :=
  ps.foldl (fun es p => put same p.1 p.2 es) []

/-- The value under a key. -/
def get? (same : κ → κ → Bool) (key : κ) (es : List (κ × ν)) : Option ν :=
  (es.find? fun e => same e.1 key).map Prod.snd

theorem distinct_sublist (same : α → α → Bool) (xs : List α) :
    (distinct same xs).Sublist xs := by
  induction xs with
  | nil => exact List.Sublist.slnil
  | cons x xs ih => exact (List.filter_sublist.trans ih).cons_cons x

/-- No kept element is the same as an earlier kept one. -/
theorem pairwise_distinct (same : α → α → Bool) (xs : List α) :
    (distinct same xs).Pairwise fun x y => same x y = false := by
  induction xs with
  | nil => exact List.Pairwise.nil
  | cons x xs ih =>
    refine List.Pairwise.cons (fun y hy => ?_) (ih.sublist List.filter_sublist)
    simpa using (List.mem_filter.1 hy).2

end Literals.Keyed
