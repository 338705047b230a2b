/-
# Equality of trees

`Node.same` is an equivalence on the trees that a program meets.  It is reflexive and transitive on
all trees.  Symmetry is where the collections count: **a set is the same as another when it has as
many elements and each is found in the other**, which says nothing about the other way round unless
its elements are apart (`Proper`).

Which scalars occur in a tree does not depend on the tree up to equality (`exists_holds_of_same`):
no order of elements and no merging of keys can hide one of them.
-/
import Mathlib.Data.List.Forall2
import Literals.Node.Basic
import Literals.Proofs.Collections

namespace Literals

open Number

/-! ## 1. Scalars -/

/-- What the equality of binary numbers looks at. -/
def Number.Binary64.key : Binary64 → Int ⊕ Bool ⊕ Nat
  | .finite negative size => .inl (signedUnits negative size)
  | .infinite negative => .inr (.inl negative)
  | .nan mark => .inr (.inr mark)

theorem Number.Binary64.same_iff {a b : Binary64} : a.same b = true ↔ a.key = b.key := by
  cases a <;> cases b <;> simp [Binary64.same, Binary64.eq, key]

namespace Scalar

/-- What the equality of scalars looks at. -/
inductive Key where
  | int (n : Int)
  | long (n : Int)
  | float (k : Int ⊕ Bool ⊕ Nat)
  | decimal (x : Exact)
  | bool (b : Bool)
  | str (s : String)

def key : Scalar → Key
  | .int n => .int n
  | .long n => .long n
  | .float x => .float x.key
  | .decimal d => .decimal d.exactValue
  | .bool b => .bool b
  | .str s => .str s

/-- **Two scalars are the same exactly when they have the same key.** -/
theorem same_iff {a b : Scalar} : a.same b = true ↔ a.key = b.key := by
  cases a <;> cases b <;> simp [same, eq, key, Binary64.same_iff, Decimal.eq]

theorem same_refl (s : Scalar) : s.same s = true :=
  same_iff.mpr rfl

theorem same_symm {a b : Scalar} (h : a.same b = true) : b.same a = true :=
  same_iff.mpr (same_iff.mp h).symm

theorem same_trans {a b c : Scalar} (hab : a.same b = true) (hbc : b.same c = true) :
    a.same c = true :=
  same_iff.mpr ((same_iff.mp hab).trans (same_iff.mp hbc))

/-- Only a decimal is the same as a decimal. -/
theorem exists_of_same_decimal {d : Decimal} {s : Scalar} (h : (decimal d).same s = true) :
    ∃ e, s = .decimal e ∧ d.exactValue = e.exactValue := by
  cases s <;> simp_all [same, eq, Decimal.eq]

end Scalar

namespace Node

/-! ## 2. Trees by their parts -/

/-- A property of all trees, from the parts of a tree to the tree. -/
@[elab_as_elim]
theorem induct {motive : Node → Prop} (scalar : ∀ s, motive (.scalar s)) (none : motive .none)
    (complex : ∀ re im, motive (.complex re im))
    (keyValue : ∀ k v, motive k → motive v → motive (.keyValue k v))
    (sequence : ∀ shape xs, (∀ x ∈ xs, motive x) → motive (.sequence shape xs)) (n : Node) :
    motive n :=
  @Node.rec motive (fun xs => ∀ x ∈ xs, motive x) scalar none complex keyValue sequence nofun
    (fun _ _ hx hxs => List.forall_mem_cons.mpr ⟨hx, hxs⟩) n

/-- The scalar occurs in the tree. -/
inductive Holds (s : Scalar) : Node → Prop
  | scalar : Holds s (.scalar s)
  | key {k v : Node} : Holds s k → Holds s (.keyValue k v)
  | value {k v : Node} : Holds s v → Holds s (.keyValue k v)
  | element {shape : Shape} {xs : List Node} {x : Node} : x ∈ xs → Holds s x →
      Holds s (.sequence shape xs)

/-- In every set and dictionary of the tree, no element is the same as a later one. -/
inductive Proper : Node → Prop
  | scalar (s : Scalar) : Proper (.scalar s)
  | none : Proper .none
  | complex (re im : Binary64) : Proper (.complex re im)
  | keyValue {k v : Node} : Proper k → Proper v → Proper (.keyValue k v)
  | sequence {shape : Shape} {xs : List Node} : (∀ x ∈ xs, Proper x) →
      (shape.unordered = true → xs.Pairwise fun x y => x.same y = false) →
      Proper (.sequence shape xs)

/-! ## 3. What sameness says -/

attribute [local simp] same

/-- The loop over a set finds an equal element for each. -/
theorem subset_iff {xs ys : List Node} :
    subset xs ys = true ↔ ∀ x ∈ xs, ∃ y ∈ ys, x.same y = true := by
  induction xs with
  | nil => exact iff_of_true rfl nofun
  | cons x xs ih => rw [subset, Bool.and_eq_true, List.any_eq_true, ih, List.forall_mem_cons]

/-- The loop over two sequences compares them element by element. -/
theorem pairwise_iff {xs ys : List Node} :
    pairwise xs ys = true ↔ List.Forall₂ (fun x y => x.same y = true) xs ys := by
  induction xs generalizing ys with
  | nil => cases ys <;> simp [pairwise]
  | cons x xs ih =>
    cases ys with
    | nil => simp [pairwise]
    | cons y ys => rw [pairwise, Bool.and_eq_true, ih, List.forall₂_cons]

/-- A scalar is equal to scalars only. -/
theorem same_scalar_iff {s : Scalar} {n : Node} :
    (scalar s).same n = true ↔ ∃ t, n = .scalar t ∧ s.same t = true := by
  cases n <;> simp

theorem same_none_iff {n : Node} : none.same n = true ↔ n = .none := by
  cases n <;> simp

theorem same_complex_iff {re im : Binary64} {n : Node} :
    (complex re im).same n = true ↔
      ∃ re' im', n = .complex re' im' ∧ re.key = re'.key ∧ im.key = im'.key := by
  cases n <;> simp [Binary64.same_iff]

/-- Two entries are equal in their keys and in their values. -/
theorem same_keyValue_iff {k v n : Node} :
    (keyValue k v).same n = true ↔
      ∃ l w, n = .keyValue l w ∧ k.same l = true ∧ v.same w = true := by
  cases n <;> simp

/-- Collections without an order are compared by membership, the others by position. -/
theorem same_sequence_iff {shape : Shape} {xs : List Node} {n : Node} :
    (sequence shape xs).same n = true ↔ ∃ ys, n = .sequence shape ys ∧
      if shape.unordered then xs.length = ys.length ∧ ∀ x ∈ xs, ∃ y ∈ ys, x.same y = true
      else List.Forall₂ (fun x y => x.same y = true) xs ys := by
  cases n with
  | sequence shape' ys =>
    rw [same, Bool.and_eq_true, beq_iff_eq]
    constructor
    · rintro ⟨rfl, h⟩
      refine ⟨ys, rfl, ?_⟩
      split at h
      next hu =>
        rw [Bool.and_eq_true, beq_iff_eq, subset_iff] at h
        exact (if_pos hu).symm ▸ h
      next hu => exact (if_neg hu).symm ▸ pairwise_iff.mp h
    · rintro ⟨_, ⟨⟩, h⟩
      refine ⟨rfl, ?_⟩
      split at h
      next hu =>
        rw [if_pos hu, Bool.and_eq_true, beq_iff_eq, subset_iff]
        exact h
      next hu =>
        rw [if_neg hu]
        exact pairwise_iff.mpr h
  | _ => simp

theorem same_unordered_iff {shape : Shape} (h : shape.unordered = true) {xs ys : List Node} :
    (sequence shape xs).same (sequence shape ys) = true ↔
      xs.length = ys.length ∧ ∀ x ∈ xs, ∃ y ∈ ys, x.same y = true := by
  rw [same_sequence_iff]
  simp [h]

theorem same_ordered_iff {shape : Shape} (h : shape.unordered = false) {xs ys : List Node} :
    (sequence shape xs).same (sequence shape ys) = true ↔
      List.Forall₂ (fun x y => x.same y = true) xs ys := by
  rw [same_sequence_iff]
  simp [h]

/-! ## 4. An equivalence -/

theorem same_refl (n : Node) : n.same n = true := by
  induction n using induct with
  | scalar s => exact same_scalar_iff.mpr ⟨s, rfl, s.same_refl⟩
  | none => rfl
  | complex re im => exact same_complex_iff.mpr ⟨re, im, rfl, rfl, rfl⟩
  | keyValue k v hk hv => exact same_keyValue_iff.mpr ⟨k, v, rfl, hk, hv⟩
  | sequence shape xs ih =>
    refine same_sequence_iff.mpr ⟨xs, rfl, ?_⟩
    split
    next => exact ⟨rfl, fun x hx => ⟨x, hx, ih x hx⟩⟩
    next => exact List.forall₂_same.mpr ih

theorem same_trans {a b c : Node} (hab : a.same b = true) (hbc : b.same c = true) :
    a.same c = true := by
  induction a using induct generalizing b c with
  | scalar s =>
    obtain ⟨t, rfl, hst⟩ := same_scalar_iff.mp hab
    obtain ⟨u, rfl, htu⟩ := same_scalar_iff.mp hbc
    exact same_scalar_iff.mpr ⟨u, rfl, Scalar.same_trans hst htu⟩
  | none =>
    obtain rfl := same_none_iff.mp hab
    exact hbc
  | complex re im =>
    obtain ⟨re', im', rfl, hre, him⟩ := same_complex_iff.mp hab
    obtain ⟨re'', im'', rfl, hre', him'⟩ := same_complex_iff.mp hbc
    exact same_complex_iff.mpr ⟨re'', im'', rfl, hre.trans hre', him.trans him'⟩
  | keyValue k v hk hv =>
    obtain ⟨l, w, rfl, hkl, hvw⟩ := same_keyValue_iff.mp hab
    obtain ⟨m, x, rfl, hlm, hwx⟩ := same_keyValue_iff.mp hbc
    exact same_keyValue_iff.mpr ⟨m, x, rfl, hk hkl hlm, hv hvw hwx⟩
  | sequence shape xs ih =>
    obtain ⟨ys, rfl, hxy⟩ := same_sequence_iff.mp hab
    obtain ⟨zs, rfl, hyz⟩ := same_sequence_iff.mp hbc
    refine same_sequence_iff.mpr ⟨zs, rfl, ?_⟩
    split
    next hu =>
      rw [if_pos hu] at hxy hyz
      refine ⟨hxy.1.trans hyz.1, fun x hx => ?_⟩
      obtain ⟨y, hy, hsame⟩ := hxy.2 x hx
      obtain ⟨z, hz, hsame'⟩ := hyz.2 y hy
      exact ⟨z, hz, ih x hx hsame hsame'⟩
    next hu =>
      rw [if_neg hu] at hxy hyz
      clear hu hab hbc
      induction hxy generalizing zs with
      | nil => exact hyz
      | @cons x y xs ys hx _ hrest =>
        cases hyz with
        | @cons _ z _ zs hz hzs =>
          obtain ⟨ihx, ihxs⟩ := List.forall_mem_cons.mp ih
          exact .cons (ihx hx hz) (hrest ihxs zs hzs)

/-- **Sameness is symmetric where the elements of collections are apart.** -/
theorem same_symm {a b : Node} (ha : a.Proper) (h : a.same b = true) : b.same a = true := by
  induction ha generalizing b with
  | scalar s =>
    obtain ⟨t, rfl, hst⟩ := same_scalar_iff.mp h
    exact same_scalar_iff.mpr ⟨s, rfl, Scalar.same_symm hst⟩
  | none =>
    obtain rfl := same_none_iff.mp h
    rfl
  | complex re im =>
    obtain ⟨re', im', rfl, hre, him⟩ := same_complex_iff.mp h
    exact same_complex_iff.mpr ⟨re, im, rfl, hre.symm, him.symm⟩
  | keyValue _ _ hk hv =>
    obtain ⟨l, w, rfl, hkl, hvw⟩ := same_keyValue_iff.mp h
    exact same_keyValue_iff.mpr ⟨_, _, rfl, hk hkl, hv hvw⟩
  | @sequence shape xs _ hapart ih =>
    obtain ⟨ys, rfl, hxy⟩ := same_sequence_iff.mp h
    refine same_sequence_iff.mpr ⟨xs, rfl, ?_⟩
    split
    next hu =>
      rw [if_pos hu] at hxy
      have htaken : ∀ y ∈ ys, ∃ x ∈ xs, x.same y = true := by
        refine Keyed.exists_of_length_eq ?_ hxy.1 hxy.2
        -- Two elements of the one that are the same as one of the other are the same.
        refine (hapart hu).imp_of_mem fun {x x'} _ hx' hne y _ hx hxy' => ?_
        rw [same_trans hx (ih x' hx' hxy')] at hne
        cases hne
      refine ⟨hxy.1.symm, fun y hy => ?_⟩
      obtain ⟨x, hx, hsame⟩ := htaken y hy
      exact ⟨x, hx, ih x hx hsame⟩
    next hu =>
      rw [if_neg hu] at hxy
      clear hu h hapart
      induction hxy with
      | nil => exact .nil
      | cons hx _ hrest =>
        rename_i hmem
        obtain ⟨ihx, ihxs⟩ := List.forall_mem_cons.mp ih
        exact .cons (ihx hx) (hrest (List.forall_mem_cons.mp hmem).2 ihxs)

/-! ## 5. Scalars of equal trees -/

theorem exists_of_mem_forall₂ {α β : Type} {R : α → β → Prop} {xs : List α} {ys : List β} {x : α}
    (h : List.Forall₂ R xs ys) (hx : x ∈ xs) : ∃ y ∈ ys, R x y := by
  induction h with
  | nil => cases hx
  | @cons a b _ _ hab _ ih =>
    rcases List.mem_cons.mp hx with rfl | hx
    · exact ⟨b, List.mem_cons_self, hab⟩
    · obtain ⟨y, hy, hR⟩ := ih hx
      exact ⟨y, List.mem_cons_of_mem _ hy, hR⟩

/-- **Each scalar of a tree has its like in every tree that it is the same as.** -/
theorem exists_holds_of_same {a b : Node} {s : Scalar} (hs : a.Holds s) (h : a.same b = true) :
    ∃ t, b.Holds t ∧ s.same t = true := by
  induction hs generalizing b with
  | scalar =>
    obtain ⟨t, rfl, hst⟩ := same_scalar_iff.mp h
    exact ⟨t, .scalar, hst⟩
  | key _ ih =>
    obtain ⟨l, w, rfl, hkl, -⟩ := same_keyValue_iff.mp h
    obtain ⟨t, ht, hst⟩ := ih hkl
    exact ⟨t, .key ht, hst⟩
  | value _ ih =>
    obtain ⟨l, w, rfl, -, hvw⟩ := same_keyValue_iff.mp h
    obtain ⟨t, ht, hst⟩ := ih hvw
    exact ⟨t, .value ht, hst⟩
  | @element shape xs x hx _ ih =>
    obtain ⟨ys, rfl, hxy⟩ := same_sequence_iff.mp h
    have hfound : ∃ y ∈ ys, x.same y = true := by
      split at hxy
      next => exact hxy.2 x hx
      next => exact exists_of_mem_forall₂ hxy hx
    obtain ⟨y, hy, hsame⟩ := hfound
    obtain ⟨t, ht, hst⟩ := ih hsame
    exact ⟨t, .element hy ht, hst⟩

end Node

end Literals
