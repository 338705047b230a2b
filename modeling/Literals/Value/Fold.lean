/-
# Folding trees into values

`Node.fold` is the structural recursion: children first, left to right, then the node itself, and
the first failure ends it.  `Folder.fold` does the same with a list of tasks and a stack of pending
values, so that its depth does not grow with the tree; a folder may be used for many trees, and
**a fold leaves the pending values of its folder as they were**, whether it succeeds or fails.

The error about an element or a key says which value it is.  Where that value has no text, because
an integer in it is too long, **there is another error instead** (`FoldError.about`).
-/
import Literals.Node.Basic
import Literals.Value.Basic

namespace Literals

/-! ## 1. One node -/

/-- Why a tree has no value: an element or a key is not hashable, a sequence is of no kind that has
values, or an integer is too long for the text of an error. -/
inductive FoldError where
  | unhashableElement (value : Value)
  | unhashableKey (key : Value)
  | unfoldable
  | overlongInteger

/-- An error about a value, which its text shows. -/
def FoldError.about (make : Value → FoldError) (v : Value) : FoldError :=
  if v.writable then make v else .overlongInteger

namespace Value

/-- The pairs among the given values. -/
def pairsOf (values : List Value) : List (Value × Value) :=
  values.filterMap fun
    | .tuple [k, v] => some (k, v)
    | _ => Option.none

/-- The set of the given values, or the first of them that no set can hold. -/
def setOf (values : List Value) : Except FoldError Value :=
  match values.find? (fun v => !v.hashable) with
  | some v => .error (.about .unhashableElement v)
  | Option.none => .ok (.set (Keyed.distinct same values))

/-- The dictionary of the given pairs, or the first key that no dictionary can hold. -/
def dictOf (pairs : List (Value × Value)) : Except FoldError Value :=
  match pairs.find? (fun e => !e.1.hashable) with
  | some e => .error (.about .unhashableKey e.1)
  | Option.none => .ok (.dict (Keyed.ofPairs same pairs))

end Value

/-- The value of a scalar. -/
def Scalar.value : Scalar → Value
  | .int n => .int n
  | .long n => .int n
  | .float x => .float x
  | .decimal d => .decimal d
  | .bool b => .bool b
  | .str s => .str s

/-- The scalar of a value, where it has one. -/
def Scalar.ofValue? : Value → Option Scalar
  | .int n => some (.ofInt n)
  | .float x => some (.float x)
  | .decimal d => some (.decimal d)
  | .bool b => some (.bool b)
  | .str s => some (.str s)
  | _ => Option.none

/-- The collection of the given values, by shape. -/
def Shape.collect : Shape → List Value → Except FoldError Value
  | .tuple, values => .ok (.tuple values)
  | .list, values => .ok (.list values)
  | .set, values => Value.setOf values
  | .dict, values => Value.dictOf (Value.pairsOf values)
  | .bare, _ => .error .unfoldable

/-- The value of a node whose children have the given values. -/
def Node.combine : Node → List Value → Except FoldError Value
  | .scalar s, _ => .ok s.value
  | .none, _ => .ok .none
  | .complex re im, _ => .ok (.complex re im)
  | .keyValue _ _, values => .ok (.tuple values)
  | .sequence shape _, values => shape.collect values

/-! ## 2. By structure -/

namespace Node

mutual

/-- The value of a tree. -/
def fold : Node → Except FoldError Value
  | .scalar s => .ok s.value
  | .none => .ok .none
  | .complex re im => .ok (.complex re im)
  | .keyValue k v =>
    match k.fold with
    | .error e => .error e
    | .ok a =>
      match v.fold with
      | .error e => .error e
      | .ok b => .ok (.tuple [a, b])
  | .sequence shape xs =>
    match foldAll xs with
    | .error e => .error e
    | .ok values => shape.collect values

/-- The values of several trees, in order. -/
def foldAll : List Node → Except FoldError (List Value)
  | [] => .ok []
  | x :: xs =>
    match x.fold with
    | .error e => .error e
    | .ok v =>
      match foldAll xs with
      | .error e => .error e
      | .ok vs => .ok (v :: vs)

end

mutual

/-- The number of nodes of a tree. -/
def size : Node → Nat
  | .keyValue k v => k.size + v.size + 1
  | .sequence _ xs => sizeAll xs + 1
  | _ => 1

/-- The number of nodes of several trees. -/
def sizeAll : List Node → Nat
  | [] => 0
  | x :: xs => x.size + sizeAll xs

end

theorem sizeAll_children_lt (n : Node) : sizeAll n.children < n.size := by
  cases n with
  | keyValue k v =>
    simp only [children, size, sizeAll]
    omega
  | sequence _ xs => exact Nat.lt_succ_self _
  | _ => exact Nat.one_pos

end Node

/-! ## 3. By tasks -/

/-- A task: to visit a node, or to combine a node whose children have been visited. -/
inductive Task where
  | visit (node : Node)
  | combine (node : Node)

/-- How many steps a task takes at most. -/
def Task.cost : Task → Nat
  | .visit n => 2 * n.size
  | .combine _ => 1

/-- How many steps several tasks take at most. -/
def Task.costAll : List Task → Nat
  | [] => 0
  | task :: tasks => task.cost + costAll tasks

theorem Task.costAll_visits (xs : List Node) :
    Task.costAll (xs.map Task.visit) = 2 * Node.sizeAll xs := by
  induction xs with
  | nil => rfl
  | cons x xs ih =>
    simp only [Task.costAll, List.map_cons, Task.cost, Node.sizeAll] at ih ⊢
    omega

theorem Task.costAll_append (a b : List Task) :
    Task.costAll (a ++ b) = Task.costAll a + Task.costAll b := by
  induction a with
  | nil => simp [Task.costAll]
  | cons task a ih => simp [Task.costAll, ih, Nat.add_assoc]

/-- Takes the values of the children of a node off the stack and puts the value of the node on. -/
def Node.settle (n : Node) (stack : List Value) : Except FoldError Value × List Value :=
  let count := n.children.length
  (n.combine (stack.take count).reverse, stack.drop count)

/-- Does all tasks; the stack has the last value on top. -/
def runTasks : List Task → List Value → Except FoldError Unit × List Value
  | [], stack => (.ok (), stack)
  | .visit n :: tasks, stack =>
    if n.children.isEmpty then
      match n.settle stack with
      | (.ok v, stack) => runTasks tasks (v :: stack)
      | (.error e, stack) => (.error e, stack)
    else runTasks (n.children.map .visit ++ .combine n :: tasks) stack
  | .combine n :: tasks, stack =>
    match n.settle stack with
    | (.ok v, stack) => runTasks tasks (v :: stack)
    | (.error e, stack) => (.error e, stack)
termination_by tasks => Task.costAll tasks
decreasing_by
  · have := Node.sizeAll_children_lt n
    simp only [Task.costAll, Task.cost]
    omega
  · have := Node.sizeAll_children_lt n
    rw [Task.costAll_append, Task.costAll_visits]
    simp only [Task.costAll, Task.cost]
    omega
  · simp only [Task.costAll, Task.cost]
    omega

/-- A folder: the values that wait for their collection, the last on top. -/
structure Folder where
  pending : List Value

/-- A folder with nothing pending. -/
def Folder.empty : Folder :=
  ⟨[]⟩

/-- Folds a tree; what a failed fold leaves above the earlier pending values is dropped. -/
def Folder.fold (f : Folder) (n : Node) : Except FoldError Value × Folder :=
  let below (stack : List Value) : Folder := ⟨stack.drop (stack.length - f.pending.length)⟩
  match runTasks [.visit n] f.pending with
  | (.ok _, v :: stack) => (.ok v, below stack)
  | (.ok _, []) => (.error .unfoldable, below [])
  | (.error e, stack) => (.error e, below stack)

/-- The value of a whole tree. -/
def Tree.fold (t : Tree) : Except FoldError Value :=
  (Folder.empty.fold t.root).1

end Literals
