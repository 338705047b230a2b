/-
# Equal trees have equal values

Two trees that are equal may hold the elements of their sets, and the entries of their dictionaries,
in different orders, and where different nodes have one value, as `1` and `True` do, their values
keep different ones of them.  All the same **equal trees both have no value, or have equal values**
(`fold_of_eq`).

What is needed of the dictionaries is that no two keys have one value: then nothing is merged in
their values, and each value stays under its own key.  Sets need nothing, since what a set of values
equals does not depend on which of the equal ones it keeps.

Where they have no value, the two errors need not be the same: the order decides which of the
things that are not hashable is found first.  Each error is about such a thing, but for integers too
long to be written, which no kind of integers holds (`Made.not_overlong`).
-/
import Literals.Proofs.FoldErrors
import Literals.Proofs.LastValue

namespace Literals

/-! ## 1. Values of collections -/

namespace Value

variable {xs ys : List Value} {v : Value}

theorem subset_iff : subset xs ys = true ↔ ∀ x ∈ xs, ∃ y ∈ ys, x.same y = true := by
  induction xs with
  | nil => simp [subset]
  | cons x xs ih => rw [subset, Bool.and_eq_true, List.any_eq_true, ih, List.forall_mem_cons]

theorem Keyable.hashable {v : Value} (hv : v.Keyable) : v.hashable = true := by
  induction hv with
  | none => rfl
  | str s => rfl
  | @number v a h =>
    cases v with
    | list | set | dict | tuple => cases h
    | _ => rfl
  | @tuple xs hxs ih =>
    change allHashable xs = true
    clear hxs
    induction xs with
    | nil => rfl
    | cons x xs ihxs =>
      obtain ⟨ihx, ih⟩ := List.forall_mem_cons.mp ih
      rw [allHashable, ihx, ihxs ih]
      rfl

end Value

namespace Node

variable {n : Node} {v : Value}

/-! ## 2. Trees with values -/

/-- The tree has a value. -/
def HasValue (n : Node) : Prop :=
  n.fold = .ok n.value

theorem hasValue_of_fold (h : n.fold = .ok v) : n.HasValue := by
  rw [HasValue, value_of_fold h, h]

/-- Several trees have values exactly when each of them has its own. -/
theorem foldAll_eq_ok_iff_hasValue {xs : List Node} {values : List Value} :
    foldAll xs = .ok values ↔ (∀ x ∈ xs, x.HasValue) ∧ values = xs.map value := by
  rw [foldAll_eq_ok_iff]
  constructor
  · intro h
    induction h with
    | nil => exact ⟨List.forall_mem_nil _, rfl⟩
    | cons hx _ ih =>
      rw [List.map_cons, value_of_fold hx, ← ih.2]
      exact ⟨List.forall_mem_cons.mpr ⟨hasValue_of_fold hx, ih.1⟩, rfl⟩
  · rintro ⟨h, rfl⟩
    rw [List.forall₂_map_right_iff, List.forall₂_same]
    exact h

theorem fold_sequence_eq_ok_iff {shape : Shape} {xs : List Node} :
    (sequence shape xs).fold = .ok v ↔
      (∀ x ∈ xs, x.HasValue) ∧ shape.collect (xs.map value) = .ok v := by
  constructor
  · intro h
    obtain ⟨values, hcollect, hvalues⟩ := fold_sequence_eq_ok h
    obtain ⟨hxs, rfl⟩ := foldAll_eq_ok_iff_hasValue.mp (foldAll_eq_ok_iff.mpr hvalues)
    exact ⟨hxs, hcollect⟩
  · rintro ⟨hxs, hcollect⟩
    have hall : foldAll (sequence shape xs).children = .ok (xs.map value) :=
      foldAll_eq_ok_iff_hasValue.mpr ⟨hxs, rfl⟩
    rw [fold_of_foldAll hall]
    exact hcollect

theorem fold_set_eq_ok_iff {xs : List Node} : (sequence .set xs).fold = .ok v ↔
    (∀ x ∈ xs, x.HasValue ∧ x.value.hashable = true) ∧
      v = .set (Keyed.distinct Value.same (xs.map value)) := by
  rw [fold_sequence_eq_ok_iff, Shape.collect, Value.setOf_eq_ok_iff, List.forall_mem_map,
    ← and_assoc, ← forall₂_and]

/-- A pair has a value when both of its parts do. -/
theorem hasValue_ofPair_iff {e : Node × Node} :
    (ofPair e).HasValue ↔ e.1.HasValue ∧ e.2.HasValue := by
  constructor
  · intro h
    rw [HasValue, ofPair, Node.fold] at h
    cases hk : e.1.fold with
    | error f =>
      rw [hk] at h
      cases h
    | ok a =>
      cases hv : e.2.fold with
      | error f =>
        rw [hk, hv] at h
        cases h
      | ok b => exact ⟨hasValue_of_fold hk, hasValue_of_fold hv⟩
  · rintro ⟨hk, hv⟩
    have hfold : (ofPair e).fold = .ok (.tuple [e.1.value, e.2.value]) := by
      unfold HasValue at hk hv
      rw [ofPair, Node.fold, hk, hv]
    exact hasValue_of_fold hfold

theorem fold_pairs_eq_ok_iff {es : List (Node × Node)} :
    (sequence .dict (es.map ofPair)).fold = .ok v ↔
      (∀ e ∈ es, e.1.HasValue ∧ e.2.HasValue ∧ e.1.value.hashable = true) ∧
        v = .dict (Keyed.ofPairs Value.same (entryValues es)) := by
  have hpairs : (∀ e ∈ es, e.1.HasValue ∧ e.2.HasValue) →
      Value.pairsOf ((es.map ofPair).map value) = entryValues es := by
    intro hes
    have hall : foldAll (es.map ofPair) = _ := foldAll_entries hes
    rw [← (foldAll_eq_ok_iff_hasValue.mp hall).2, pairsOf_tuples]
  rw [fold_sequence_eq_ok_iff, List.forall_mem_map]
  simp only [hasValue_ofPair_iff]
  constructor
  · rintro ⟨hes, hcollect⟩
    rw [Shape.collect, hpairs hes, Value.dictOf_eq_ok_iff, entryValues, List.forall_mem_map]
      at hcollect
    exact ⟨fun e he => ⟨(hes e he).1, (hes e he).2, hcollect.1 e he⟩, hcollect.2⟩
  · rintro ⟨hes, hv⟩
    have hparts : ∀ e ∈ es, e.1.HasValue ∧ e.2.HasValue := fun e he =>
      ⟨(hes e he).1, (hes e he).2.1⟩
    refine ⟨hparts, ?_⟩
    rw [Shape.collect, hpairs hparts, Value.dictOf_eq_ok_iff, entryValues, List.forall_mem_map]
    exact ⟨fun e he => (hes e he).2.2, hv⟩

/-! ## 3. Trees with distinct keys -/

/-- In no dictionary of the tree do two keys have one value. -/
def KeysDistinct (n : Node) : Prop :=
  ∀ d ∈ n.postorder, d.entries.Pairwise fun e f =>
    ∀ v w, e.1.fold = .ok v → f.1.fold = .ok w → v.same w = false

theorem keysDistinct_iff : n.KeysDistinct ↔
    (n.entries.Pairwise fun e f =>
      ∀ v w, e.1.fold = .ok v → f.1.fold = .ok w → v.same w = false) ∧
    ∀ x ∈ n.children, x.KeysDistinct := by
  constructor
  · intro h
    exact ⟨h n (mem_postorder_iff.mpr (.inl rfl)),
      fun x hx d hd => h d (mem_postorder_iff.mpr (.inr ⟨x, hx, hd⟩))⟩
  · rintro ⟨hself, hchildren⟩ d hd
    rcases mem_postorder_iff.mp hd with rfl | ⟨x, hx, hd⟩
    · exact hself
    · exact hchildren x hx d hd

theorem keysDistinct_pairs_iff {es : List (Node × Node)} :
    (sequence .dict (es.map ofPair)).KeysDistinct ↔
      (es.Pairwise fun e f => ∀ v w, e.1.fold = .ok v → f.1.fold = .ok w → v.same w = false) ∧
      ∀ e ∈ es, e.1.KeysDistinct ∧ e.2.KeysDistinct := by
  rw [keysDistinct_iff, entries_pairs]
  refine and_congr_right fun _ => List.forall_mem_map.trans (forall₂_congr fun e _ => ?_)
  rw [keysDistinct_iff]
  simp [ofPair, entries, children]

/-- The tree is plain, and nothing is merged in the values of its dictionaries. -/
structure Unmerged (n : Node) : Prop where
  plain : n.Plain
  distinct : n.KeysDistinct

theorem Unmerged.element {shape : Shape} {xs : List Node} (h : (sequence shape xs).Unmerged)
    (hshape : shape ≠ .dict) {x : Node} (hx : x ∈ xs) : x.Unmerged :=
  ⟨h.plain.elements hshape x hx, (keysDistinct_iff.mp h.distinct).2 x hx⟩

theorem Unmerged.entry {es : List (Node × Node)} (h : (sequence .dict (es.map ofPair)).Unmerged)
    {e : Node × Node} (he : e ∈ es) : e.1.Unmerged ∧ e.2.Unmerged := by
  obtain ⟨fs, hfs, -, hplain⟩ := h.plain.exists_entries
  obtain rfl : es = fs := by rw [← entries_pairs es, hfs, entries_pairs]
  obtain ⟨hkey, hvalue⟩ := (keysDistinct_pairs_iff.mp h.distinct).2 e he
  exact ⟨⟨(hplain e he).1, hkey⟩, ⟨(hplain e he).2, hvalue⟩⟩

end Node

end Literals
