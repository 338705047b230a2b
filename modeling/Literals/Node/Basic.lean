/-
# Trees of literals

A `Node` is a scalar, the literal `None`, a complex number, a pair of key and value, or a sequence
of one of five shapes.  Sets and dictionaries are made by `Node.set` and `Node.dict`, which drop
repeated elements and merge repeated keys, so **the sets and dictionaries that a program meets have
pairwise distinct elements and keys**.

Two equalities: `Node.same` is the one that collections use for their elements, and `Node.eq` is
the one between two given trees.  They differ in one case only: two scalars that hold the same
occurrence of a NaN are the same and not equal.
-/
import Literals.Node.Scalar
import Literals.Keyed

namespace Literals

open Number

/-! ## 1. The type -/

/-- The shapes of sequences; `bare` is a sequence without brackets of its own. -/
inductive Shape where
  | tuple
  | list
  | set
  | dict
  | bare
deriving DecidableEq, Repr

/-- Whether sequences of this shape compare without regard to order. -/
def Shape.unordered : Shape → Bool
  | .set => true
  | .dict => true
  | _ => false

/-- A tree of literals. -/
inductive Node where
  | scalar (s : Scalar)
  | none
  | complex (re im : Binary64)
  | keyValue (key value : Node)
  | sequence (shape : Shape) (elements : List Node)

namespace Node

/-- The name of the kind of node, as outlines and messages show it. -/
def typeName : Node → String
  | .scalar _ => "ScalarNode"
  | .none => "NoneNode"
  | .complex _ _ => "ComplexNumberNode"
  | .keyValue _ _ => "KeyValueNode"
  | .sequence .tuple _ => "TupleNode"
  | .sequence .list _ => "ListNode"
  | .sequence .set _ => "SetNode"
  | .sequence .dict _ => "DictNode"
  | .sequence .bare _ => "SequenceNode"

/-- The nodes right below a node. -/
def children : Node → List Node
  | .keyValue k v => [k, v]
  | .sequence _ xs => xs
  | _ => []

/-! ## 2. Equality -/

mutual

/-- Equality as collections use it.  Sets and dictionaries are the same when they have as many
elements and each of the one is found in the other. -/
def same : Node → Node → Bool
  | .scalar s, .scalar t => s.same t
  | .none, .none => true
  | .complex a b, .complex c d => a.same c && b.same d
  | .keyValue k v, .keyValue l w => k.same l && v.same w
  | .sequence s xs, .sequence t ys =>
    s == t && if s.unordered then xs.length == ys.length && subset xs ys else pairwise xs ys
  | _, _ => false

/-- Whether each element of the first list is found in the second. -/
def subset : List Node → List Node → Bool
  | [], _ => true
  | x :: xs, ys => ys.any (fun y => x.same y) && subset xs ys

/-- Whether two lists are the same element by element. -/
def pairwise : List Node → List Node → Bool
  | [], [] => true
  | x :: xs, y :: ys => x.same y && pairwise xs ys
  | _, _ => false

end

/-- Equality of two trees. -/
def eq : Node → Node → Bool
  | .scalar s, .scalar t => s.eq t
  | a, b => a.same b

/-! ## 3. Construction -/

/-- A tuple. -/
def tuple (xs : List Node) : Node :=
  .sequence .tuple xs

/-- A list. -/
def list (xs : List Node) : Node :=
  .sequence .list xs

/-- A set: the first of equal elements is kept. -/
def set (xs : List Node) : Node :=
  .sequence .set (Keyed.distinct same xs)

/-- A dictionary: of equal keys the first is kept, with the value of the last. -/
def dict (pairs : List (Node × Node)) : Node :=
  .sequence .dict ((Keyed.ofPairs same pairs).map fun e => .keyValue e.1 e.2)

/-- The pairs of a list of key-value nodes, or the first node that is none. -/
def pairs? : List Node → Except Node (List (Node × Node))
  | [] => .ok []
  | .keyValue k v :: xs => (pairs? xs).map ((k, v) :: ·)
  | x :: _ => .error x

/-- The entries of a dictionary. -/
def entries : Node → List (Node × Node)
  | .sequence .dict xs => xs.filterMap fun
    | .keyValue k v => some (k, v)
    | _ => Option.none
  | _ => []

/-- The value under a key of a dictionary. -/
def get? (d key : Node) : Option Node :=
  Keyed.get? eq key d.entries

/-- The element at an index; a negative one counts from the end. -/
def at? (x : Node) (i : Int) : Option Node :=
  let xs := x.children
  let i := if i < 0 then i + xs.length else i
  if i < 0 then Option.none else xs[i.toNat]?

/-- The text of a message about a node that stands where a key-value pair belongs. -/
def notAPairMessage (x : Node) : String :=
  "dict elements must be KeyValueNode, got " ++ x.typeName

/-! ## 4. Order -/

/-- Whether the first node is the smaller; only scalars of one kind compare. -/
def lt? : Node → Node → Option Bool
  | .scalar s, .scalar t => s.lt? t
  | _, _ => Option.none

/-- Smaller or equal. -/
def le? (a b : Node) : Option Bool :=
  (a.lt? b).map fun l => l || a.eq b

/-- Neither smaller nor equal. -/
def gt? (a b : Node) : Option Bool :=
  (a.lt? b).map fun l => !l && !a.eq b

/-- Not smaller. -/
def ge? (a b : Node) : Option Bool :=
  (a.lt? b).map fun l => !l

/-- The nodes in ascending order, equal ones in the order given; nothing when there are two that
do not compare. -/
def sorted? (xs : List Node) : Option (List Node) :=
  if xs.length ≤ 1 then some xs
  else if xs.all fun x => xs.all fun y => (x.lt? y).isSome then
    some (xs.mergeSort fun x y => !((y.lt? x).getD false))
  else Option.none

end Node

/-- A whole tree, known by its root. -/
structure Tree where
  root : Node

/-- Equality of trees. -/
def Tree.eq (a b : Tree) : Bool :=
  a.root.same b.root

end Literals
