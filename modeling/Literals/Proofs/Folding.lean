/-
# Folding by tasks is folding by structure

`Node.fold` recurses over the tree, `Folder.fold` works off a list of tasks with a stack of pending
values.  What ties them is one statement about a single task (`Node.visits`): **visiting a node
puts its value on top of whatever is pending and goes on, or stops with its error above whatever is
pending.**  Nothing is assumed of the tasks and of the values below, so the statement of the
children gives the statement of their parent, and a folder comes back from every fold as it was.

The error of a fold is that of one node, the first in the order in which nodes are completed:
children before their parent, from left to right (`fold_eq_error_iff`).
-/
import Mathlib.Data.List.Basic
import Literals.Value.Fold
import Literals.Proofs.Equality

namespace Literals

/-! ## 1. The structural recursion -/

namespace Node

/-- **A node is folded by folding its children and combining their values.** -/
theorem fold_eq_combine (n : Node) :
    n.fold = match foldAll n.children with
      | .ok values => n.combine values
      | .error e => .error e := by
  cases n with
  | scalar s => rfl
  | none => rfl
  | complex re im => rfl
  | keyValue k v =>
    simp only [fold, children, foldAll]
    cases k.fold with
    | error e => rfl
    | ok a => cases v.fold <;> rfl
  | sequence shape xs =>
    simp only [fold, children]
    cases foldAll xs <;> rfl

theorem fold_of_foldAll {n : Node} {values : List Value} (h : foldAll n.children = .ok values) :
    n.fold = n.combine values := by
  rw [fold_eq_combine, h]

/-- Several trees have values exactly when each of them has one. -/
theorem foldAll_eq_ok_iff {xs : List Node} {values : List Value} :
    foldAll xs = .ok values ↔ List.Forall₂ (fun x v => x.fold = .ok v) xs values := by
  induction xs generalizing values with
  | nil =>
    rw [foldAll, List.forall₂_nil_left_iff, Except.ok.injEq, eq_comm]
  | cons x xs ih =>
    rw [List.forall₂_cons_left_iff, foldAll]
    constructor
    · intro h
      cases hx : x.fold with
      | error e =>
        rw [hx] at h
        cases h
      | ok v =>
        cases hxs : foldAll xs with
        | error e =>
          rw [hx, hxs] at h
          cases h
        | ok vs =>
          rw [hx, hxs] at h
          exact ⟨v, vs, rfl, ih.mp hxs, (Except.ok.inj h).symm⟩
    · rintro ⟨v, vs, hx, hvs, rfl⟩
      rw [hx, ih.mpr hvs]

/-- The first of several trees that has no value gives the error. -/
theorem exists_of_foldAll_eq_error {xs : List Node} {e : FoldError}
    (h : foldAll xs = .error e) : ∃ before x after values, xs = before ++ x :: after ∧
      foldAll before = .ok values ∧ x.fold = .error e := by
  induction xs with
  | nil => cases h
  | cons x xs ih =>
    rw [foldAll] at h
    cases hx : x.fold with
    | error e' =>
      rw [hx] at h
      obtain rfl : e' = e := Except.error.inj h
      exact ⟨[], x, xs, [], rfl, rfl, hx⟩
    | ok v =>
      cases hxs : foldAll xs with
      | ok vs =>
        rw [hx, hxs] at h
        cases h
      | error e' =>
        rw [hx, hxs] at h
        obtain rfl : e' = e := Except.error.inj h
        obtain ⟨before, y, after, values, rfl, hbefore, hy⟩ := ih hxs
        refine ⟨x :: before, y, after, v :: values, rfl, ?_, hy⟩
        rw [foldAll, hx, hbefore]

/-! ## 2. The first failure -/

mutual

/-- The nodes of a tree in the order in which they are completed: children before their parent,
from left to right. -/
def postorder : Node → List Node
  | .keyValue k v => k.postorder ++ v.postorder ++ [.keyValue k v]
  | .sequence shape xs => postorderAll xs ++ [.sequence shape xs]
  | n => [n]

/-- The nodes of several trees, in the same order. -/
def postorderAll : List Node → List Node
  | [] => []
  | x :: xs => x.postorder ++ postorderAll xs

end

theorem postorderAll_append (xs ys : List Node) :
    postorderAll (xs ++ ys) = postorderAll xs ++ postorderAll ys := by
  induction xs with
  | nil => rfl
  | cons x xs ih => rw [List.cons_append, postorderAll, ih, postorderAll, List.append_assoc]

theorem postorder_eq (n : Node) : n.postorder = postorderAll n.children ++ [n] := by
  cases n <;> simp [postorder, postorderAll, children]

/-- The nodes of a tree are its root and the nodes of the trees right below. -/
theorem mem_postorder_iff {m n : Node} :
    m ∈ n.postorder ↔ m = n ∨ ∃ x ∈ n.children, m ∈ x.postorder := by
  have hall : ∀ xs : List Node, m ∈ postorderAll xs ↔ ∃ x ∈ xs, m ∈ x.postorder := by
    intro xs
    induction xs with
    | nil => simp [postorderAll]
    | cons x xs ih => simp [postorderAll, ih]
  rw [postorder_eq, List.mem_append, hall, List.mem_singleton, or_comm]

/-- Whether a node has no value. -/
def fails (n : Node) : Bool :=
  match n.fold with
  | .ok _ => false
  | .error _ => true

theorem fails_of_ok {n : Node} {v : Value} (h : n.fold = .ok v) : n.fails = false := by
  rw [fails, h]

theorem fails_of_error {n : Node} {e : FoldError} (h : n.fold = .error e) : n.fails = true := by
  rw [fails, h]

/-- The node `m` is the first of the tree that fails, and fails by itself: its children have values
that cannot be combined. -/
structure FirstFailure (n m : Node) (e : FoldError) : Prop where
  first : n.postorder.find? fails = some m
  combine : ∃ values, foldAll m.children = .ok values ∧ m.combine values = .error e

/-- A property of all trees, from the children of a node to the node. -/
theorem induct_children {motive : Node → Prop}
    (parent : ∀ n : Node, (∀ x ∈ n.children, motive x) → motive n) (n : Node) : motive n := by
  induction n using induct with
  | scalar s => exact parent _ nofun
  | none => exact parent _ nofun
  | complex re im => exact parent _ nofun
  | keyValue k v ihk ihv =>
    exact parent _ (List.forall_mem_cons.mpr ⟨ihk, List.forall_mem_singleton.mpr ihv⟩)
  | sequence shape xs ih => exact parent _ ih

/-- Where several trees have values, none of their nodes fails if none fails in a tree that has
one. -/
theorem find?_postorderAll_of_ok {xs : List Node} {values : List Value}
    (hxs : foldAll xs = .ok values)
    (ih : ∀ x ∈ xs, ∀ v, x.fold = .ok v → x.postorder.find? fails = Option.none) :
    (postorderAll xs).find? fails = Option.none := by
  rw [foldAll_eq_ok_iff] at hxs
  induction hxs with
  | nil => rfl
  | @cons x v xs vs hx _ ihxs =>
    obtain ⟨ihx, ihs⟩ := List.forall_mem_cons.mp ih
    rw [postorderAll, List.find?_append, ihx v hx, Option.none_or, ihxs ihs]

/-- **Where a tree has a value, none of its nodes fails.** -/
theorem find?_postorder_of_ok (n : Node) :
    ∀ v, n.fold = .ok v → n.postorder.find? fails = Option.none := by
  induction n using induct_children with
  | parent n ih =>
    intro v hv
    cases hchildren : foldAll n.children with
    | error e =>
      rw [fold_eq_combine, hchildren] at hv
      cases hv
    | ok values =>
      rw [postorder_eq, List.find?_append, find?_postorderAll_of_ok hchildren ih, Option.none_or]
      simp [fails_of_ok hv]

/-- A tree without a value has a first node that fails. -/
theorem exists_firstFailure (n : Node) :
    ∀ e, n.fold = .error e → ∃ m, n.FirstFailure m e := by
  induction n using induct_children with
  | parent n ih =>
    intro e he
    cases hchildren : foldAll n.children with
    | error e' =>
      obtain rfl : e' = e := by
        rw [fold_eq_combine, hchildren] at he
        exact Except.error.inj he
      obtain ⟨before, x, after, values, hsplit, hbefore, hx⟩ :=
        exists_of_foldAll_eq_error hchildren
      obtain ⟨m, hm, hcombine⟩ := ih x (by simp [hsplit]) e' hx
      have hnone : (postorderAll before).find? fails = Option.none :=
        find?_postorderAll_of_ok hbefore fun y _ => find?_postorder_of_ok y
      refine ⟨m, ?_, hcombine⟩
      rw [postorder_eq, hsplit, postorderAll_append, postorderAll, List.append_assoc,
        List.find?_append, hnone, Option.none_or, List.append_assoc, List.find?_append, hm,
        Option.some_or]
    | ok values =>
      have hnone := find?_postorderAll_of_ok hchildren fun x _ => find?_postorder_of_ok x
      refine ⟨n, ?_, values, hchildren, (fold_of_foldAll hchildren).symm.trans he⟩
      rw [postorder_eq, List.find?_append, hnone, Option.none_or]
      simp [fails_of_error he]

/-- **A tree fails with the error of the first node that fails.** -/
theorem fold_eq_error_iff {n : Node} {e : FoldError} :
    n.fold = .error e ↔ ∃ m, n.FirstFailure m e := by
  refine ⟨exists_firstFailure n e, ?_⟩
  rintro ⟨m, hfirst, values, hvalues, hcombine⟩
  cases hn : n.fold with
  | ok v =>
    rw [find?_postorder_of_ok n v hn] at hfirst
    cases hfirst
  | error e' =>
    obtain ⟨m', hfirst', values', hvalues', hcombine'⟩ := exists_firstFailure n e' hn
    obtain rfl : m = m' := Option.some.inj (hfirst.symm.trans hfirst')
    obtain rfl : values = values' := Except.ok.inj (hvalues.symm.trans hvalues')
    exact hcombine'.symm.trans hcombine

/-! ## 3. Tasks -/

/-- Visiting the node puts its value on the stack and goes on with the other tasks, or stops with
its error and leaves something above the stack. -/
structure Visits (n : Node) : Prop where
  ok : ∀ v, n.fold = .ok v → ∀ tasks stack,
    runTasks (.visit n :: tasks) stack = runTasks tasks (v :: stack)
  error : ∀ e, n.fold = .error e → ∀ tasks stack,
    ∃ above, runTasks (.visit n :: tasks) stack = (.error e, above ++ stack)

/-- The values of the children are taken off the stack, and nothing else. -/
theorem settle_append {n : Node} {values : List Value} (h : foldAll n.children = .ok values)
    (stack : List Value) : n.settle (values.reverse ++ stack) = (n.combine values, stack) := by
  have hlength : n.children.length = values.reverse.length := by
    rw [List.length_reverse]
    exact (foldAll_eq_ok_iff.mp h).length_eq
  rw [settle, hlength, List.take_left, List.drop_left, List.reverse_reverse]

/-- Visiting several nodes that have values puts the values on the stack. -/
theorem runTasks_visits {xs : List Node} (hxs : ∀ x ∈ xs, x.Visits) {values : List Value}
    (h : foldAll xs = .ok values) (tasks : List Task) (stack : List Value) :
    runTasks (xs.map .visit ++ tasks) stack = runTasks tasks (values.reverse ++ stack) := by
  rw [foldAll_eq_ok_iff] at h
  induction h generalizing stack with
  | nil => rfl
  | @cons x v xs vs hx _ ih =>
    obtain ⟨hvisit, hrest⟩ := List.forall_mem_cons.mp hxs
    rw [List.map_cons, List.cons_append, hvisit.ok v hx, ih hrest, List.reverse_cons,
      List.append_assoc]
    rfl

/-- A node whose children have values is combined on top of the stack. -/
theorem runTasks_combine {n : Node} {values : List Value} (h : foldAll n.children = .ok values)
    (tasks : List Task) (stack : List Value) :
    runTasks (.combine n :: tasks) (values.reverse ++ stack) =
      match n.fold with
      | .ok v => runTasks tasks (v :: stack)
      | .error e => (.error e, stack) := by
  rw [runTasks, settle_append h, fold_of_foldAll h]
  cases n.combine values <;> rfl

/-- A node without children is combined at once, the others after their children. -/
theorem runTasks_visit (n : Node) (tasks : List Task) (stack : List Value) :
    runTasks (.visit n :: tasks) stack =
      runTasks (n.children.map .visit ++ .combine n :: tasks) stack := by
  rw [runTasks]
  split
  next hempty =>
    rw [List.isEmpty_iff.mp hempty, List.map_nil, List.nil_append, runTasks]
  next => rfl

/-- **Every node is visited as it is folded**, whatever is pending. -/
theorem visits (n : Node) : n.Visits := by
  induction n using induct_children with
  | parent n ih =>
    cases hchildren : foldAll n.children with
    | ok values =>
      have hrun : ∀ tasks stack, runTasks (.visit n :: tasks) stack =
          match n.fold with
          | .ok v => runTasks tasks (v :: stack)
          | .error e => (.error e, stack) := fun tasks stack => by
        rw [runTasks_visit, runTasks_visits ih hchildren, runTasks_combine hchildren]
      refine ⟨fun v hv tasks stack => ?_, fun e he tasks stack => ⟨[], ?_⟩⟩
      · rw [hrun, hv]
      · rw [hrun, he]
        rfl
    | error e' =>
      have hfold : n.fold = .error e' := by rw [fold_eq_combine, hchildren]
      obtain ⟨before, x, after, values, hsplit, hbefore, hx⟩ :=
        exists_of_foldAll_eq_error hchildren
      refine ⟨fun v hv => (nomatch hfold.symm.trans hv), fun e he tasks stack => ?_⟩
      obtain rfl : e' = e := Except.error.inj (hfold.symm.trans he)
      have hmem : ∀ y ∈ before, y ∈ n.children := fun y hy => by simp [hsplit, hy]
      have hvisit : x.Visits := ih x (by simp [hsplit])
      obtain ⟨above, habove⟩ := hvisit.error e' hx
        (after.map .visit ++ .combine n :: tasks) (values.reverse ++ stack)
      refine ⟨above ++ values.reverse, ?_⟩
      rw [runTasks_visit, hsplit, List.map_append, List.append_assoc,
        runTasks_visits (fun y hy => ih y (hmem y hy)) hbefore, List.map_cons, List.cons_append,
        habove, List.append_assoc]

end Node

/-! ## 4. Folders -/

namespace Folder

/-- Folds several trees, one after another. -/
def foldEach (f : Folder) : List Node → List (Except FoldError Value) × Folder
  | [] => ([], f)
  | n :: ns =>
    let (result, f) := f.fold n
    let (results, f) := f.foldEach ns
    (result :: results, f)

/-- **A folder gives the value of the tree and keeps its pending values.** -/
theorem fold_eq_fold (f : Folder) (n : Node) : f.fold n = (n.fold, f) := by
  unfold fold
  cases hn : n.fold with
  | ok v =>
    rw [n.visits.ok v hn, runTasks]
    simp
  | error e =>
    obtain ⟨above, habove⟩ := n.visits.error e hn [] f.pending
    rw [habove]
    simp

theorem foldEach_eq_map (f : Folder) (ns : List Node) : f.foldEach ns = (ns.map Node.fold, f) := by
  induction ns with
  | nil => rfl
  | cons n ns ih =>
    rw [foldEach, fold_eq_fold]
    simp only [ih, List.map_cons]

/-- **Folding by tasks refines folding by structure**: whatever is pending in a folder, it gives the
value of the tree, or the error of the first node that fails, and it is left as it was.  So each of
several trees is folded as a new folder folds it. -/
theorem fold_refines (f : Folder) :
    (∀ n, f.fold n = (n.fold, f) ∧
      ∀ e, (f.fold n).1 = .error e ↔ ∃ m, n.FirstFailure m e) ∧
    ∀ ns, f.foldEach ns = (ns.map fun n => (Folder.empty.fold n).1, f) := by
  refine ⟨fun n => ⟨fold_eq_fold f n, fun e => ?_⟩, fun ns => ?_⟩
  · rw [fold_eq_fold]
    exact Node.fold_eq_error_iff
  · rw [foldEach_eq_map]
    simp only [fold_eq_fold]

end Folder

/-- The value of a whole tree is that of its root. -/
theorem Tree.fold_eq (t : Tree) : t.fold = t.root.fold :=
  congrArg Prod.fst (Folder.empty.fold_eq_fold t.root)

end Literals
