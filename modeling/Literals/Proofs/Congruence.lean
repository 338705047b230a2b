/-
# Equality as a congruence

Equality of trees is decided from the inside out: of ordered collections place by place, of sets
and dictionaries by counting and finding.  On the trees without a NaN it is an equivalence that the
constructors respect (`eq_congruence`), and **nothing of how a set or a dictionary was written can
be told from what it equals**: sets are equal when every element of either equals one of the other,
dictionaries when every key has equal values in both, or none.

Without a NaN, equality is sameness, so all of this is read off `same_sequence_iff` and the two
counting facts about collections.
-/
import Literals.Proofs.Made

namespace Literals.Node

variable {a b : Node}

/-! ## 1. Nodes of different classes -/

theorem typeName_of_same (h : a.same b = true) : a.typeName = b.typeName := by
  cases a with
  | scalar s =>
    obtain ⟨t, rfl, -⟩ := same_scalar_iff.mp h
    rfl
  | none =>
    obtain rfl := same_none_iff.mp h
    rfl
  | complex re im =>
    obtain ⟨re', im', rfl, -⟩ := same_complex_iff.mp h
    rfl
  | keyValue k v =>
    obtain ⟨l, w, rfl, -⟩ := same_keyValue_iff.mp h
    rfl
  | sequence shape xs =>
    obtain ⟨ys, rfl, -⟩ := same_sequence_iff.mp h
    cases shape <;> rfl

/-- Nodes of different classes are never equal. -/
theorem eq_of_typeName_ne (h : a.typeName ≠ b.typeName) : a.eq b = false := by
  rw [Bool.eq_false_iff]
  intro heq
  cases a with
  | scalar s =>
    cases b with
    | scalar t => exact h rfl
    | _ => cases heq
  | _ => exact h (typeName_of_same heq)

/-- Scalars of different kinds are never equal. -/
theorem eq_of_kind_ne {s t : Scalar} (h : s.kind ≠ t.kind) :
    (scalar s).eq (scalar t) = false := by
  change s.eq t = false
  cases s <;> cases t <;> first | rfl | exact absurd rfl h

/-! ## 2. Pairs and ordered collections -/

/-- **Equality is an equivalence** on the trees without a NaN. -/
theorem eq_equivalence : Equivalence fun a b : {n : Node // n.NaNFree} => a.1.eq b.1 = true where
  refl a := by
    rw [eq_eq_same a.2]
    exact same_refl a.1
  symm {a b} h := by
    rw [eq_eq_same a.2] at h
    rw [eq_eq_same b.2]
    exact same_symm a.2.proper h
  trans {a b c} hab hbc := by
    rw [eq_eq_same a.2] at hab
    rw [eq_eq_same b.2] at hbc
    rw [eq_eq_same a.2]
    exact same_trans hab hbc

theorem eq_keyValue_iff {k l v w : Node} (hk : k.NaNFree) (hv : v.NaNFree) :
    (keyValue k v).eq (keyValue l w) = true ↔ k.eq l = true ∧ v.eq w = true := by
  rw [eq_eq_same hk, eq_eq_same hv]
  change (k.same l && v.same w) = true ↔ _
  rw [Bool.and_eq_true]

/-- What equality says of elements, it says of them by sameness. -/
theorem exists_eq_iff {xs ys : List Node} (hxs : ∀ x ∈ xs, x.NaNFree) :
    (∀ x ∈ xs, ∃ y ∈ ys, x.eq y = true) ↔ ∀ x ∈ xs, ∃ y ∈ ys, x.same y = true :=
  forall₂_congr fun x hx => by simp only [eq_eq_same (hxs x hx)]

theorem forall₂_eq_iff {xs ys : List Node} (hxs : ∀ x ∈ xs, x.NaNFree) :
    List.Forall₂ (fun x y => x.eq y = true) xs ys ↔
      List.Forall₂ (fun x y => x.same y = true) xs ys := by
  induction xs generalizing ys with
  | nil => simp only [List.forall₂_nil_left_iff]
  | cons x xs ih =>
    obtain ⟨hx, hxs⟩ := List.forall_mem_cons.mp hxs
    simp only [List.forall₂_cons_left_iff, eq_eq_same hx, ih hxs]

/-- Tuples and lists are equal exactly when their elements are so, place by place. -/
theorem eq_ordered_iff {shape : Shape} (hshape : shape.unordered = false) {xs ys : List Node}
    (hxs : ∀ x ∈ xs, x.NaNFree) :
    (sequence shape xs).eq (sequence shape ys) = true ↔
      List.Forall₂ (fun x y => x.eq y = true) xs ys := by
  rw [forall₂_eq_iff hxs]
  exact same_ordered_iff hshape

/-! ## 3. Sets and dictionaries -/

/-- **Sets are equal exactly when each element of either equals one of the other.** -/
theorem eq_set_iff {xs ys : List Node} (hxs : ∀ x ∈ xs, x.NaNFree) (hys : ∀ y ∈ ys, y.NaNFree) :
    (set xs).eq (set ys) = true ↔
      (∀ x ∈ xs, ∃ y ∈ ys, x.eq y = true) ∧ ∀ y ∈ ys, ∃ x ∈ xs, y.eq x = true := by
  rw [exists_eq_iff hxs, exists_eq_iff hys, ← Keyed.distinct_alike_iff classes_made hxs hys]
  exact same_unordered_iff rfl

/-- Keys without a NaN are found by sameness. -/
theorem get?_dict {es : List (Node × Node)} (hes : ∀ e ∈ es, e.1.NaNFree) (k : Node) :
    (dict es).get? k = Keyed.get? same k (Keyed.ofPairs same es) := by
  have hkeys : ∀ e ∈ Keyed.ofPairs same es, e.1.NaNFree := Keyed.forall_key_ofPairs hes
  rw [get?, entries_dict]
  exact Keyed.get?_congr fun e he => eq_eq_same (hkeys e he) k

/-- **Dictionaries are equal exactly when every key has equal values in both, or none.** -/
theorem eq_dict_iff {ps qs : List (Node × Node)} (hps : ∀ p ∈ ps, p.1.NaNFree ∧ p.2.NaNFree)
    (hqs : ∀ q ∈ qs, q.1.NaNFree ∧ q.2.NaNFree) :
    (dict ps).eq (dict qs) = true ↔ ∀ k, k.NaNFree →
      Option.Rel (fun v w => v.eq w = true) ((dict ps).get? k) ((dict qs).get? k) := by
  have hes : ∀ e ∈ Keyed.ofPairs same ps, e.1.NaNFree ∧ e.2.NaNFree := Keyed.forall_ofPairs hps
  have hfs : ∀ f ∈ Keyed.ofPairs same qs, f.1.NaNFree ∧ f.2.NaNFree := Keyed.forall_ofPairs hqs
  simp only [get?_dict fun p hp => (hps p hp).1, get?_dict fun q hq => (hqs q hq).1]
  rw [← Keyed.entries_alike_iff classes_made (fun e he => (hes e he).1) (fun f hf => (hfs f hf).1)
    (Keyed.keysApart_ofPairs ps) (Keyed.keysApart_ofPairs qs)]
  refine same_pairs_iff.trans (and_congr_right fun _ => forall₂_congr fun e he => ?_)
  simp only [eq_eq_same (hes e he).2]

/-! ## 4. All laws -/

/-- **Equality is an equivalence and a congruence** on the trees without a NaN: pairs, tuples and
lists are equal exactly when their parts are, place by place; sets exactly when each element of
either equals one of the other, whatever the order and the repetitions; and dictionaries exactly
when every key has equal values in both, or none.  Nodes of different classes, and scalars of
different kinds, are never equal. -/
theorem eq_congruence :
    Equivalence (fun a b : {n : Node // n.NaNFree} => a.1.eq b.1 = true) ∧
      (∀ k v l w : Node, k.NaNFree → v.NaNFree →
        ((keyValue k v).eq (keyValue l w) = true ↔ k.eq l = true ∧ v.eq w = true)) ∧
      (∀ (shape : Shape) (xs ys : List Node), shape.unordered = false → (∀ x ∈ xs, x.NaNFree) →
        ((sequence shape xs).eq (sequence shape ys) = true ↔
          List.Forall₂ (fun x y => x.eq y = true) xs ys)) ∧
      (∀ xs ys : List Node, (∀ x ∈ xs, x.NaNFree) → (∀ y ∈ ys, y.NaNFree) →
        ((set xs).eq (set ys) = true ↔
          (∀ x ∈ xs, ∃ y ∈ ys, x.eq y = true) ∧ ∀ y ∈ ys, ∃ x ∈ xs, y.eq x = true)) ∧
      (∀ ps qs : List (Node × Node), (∀ p ∈ ps, p.1.NaNFree ∧ p.2.NaNFree) →
        (∀ q ∈ qs, q.1.NaNFree ∧ q.2.NaNFree) →
          ((dict ps).eq (dict qs) = true ↔ ∀ k, k.NaNFree →
            Option.Rel (fun v w => v.eq w = true) ((dict ps).get? k) ((dict qs).get? k))) ∧
      (∀ a b : Node, a.typeName ≠ b.typeName → a.eq b = false) ∧
      ∀ s t : Scalar, s.kind ≠ t.kind → (scalar s).eq (scalar t) = false :=
  ⟨eq_equivalence, fun _ _ _ _ => eq_keyValue_iff, fun _ _ _ hshape => eq_ordered_iff hshape,
    fun _ _ => eq_set_iff, fun _ _ => eq_dict_iff, fun _ _ => eq_of_typeName_ne,
    fun _ _ => eq_of_kind_ne⟩

/-- A set in another order and with a repetition, a dictionary in another order, and two nodes that
would be one key as values. -/
theorem eq_congruence_reordered :
    (set [scalar (.int 1), scalar (.str "a")]).eq
        (set [scalar (.str "a"), scalar (.int 1), scalar (.str "a")]) = true ∧
      (list [scalar (.int 1)]).eq (list [scalar (.int 1)]) = true ∧
      (keyValue (scalar (.int 1)) .none).eq (keyValue (scalar (.int 1)) .none) = true ∧
      Option.Rel (fun v w => v.eq w = true)
        ((dict [(scalar (.int 1), .none), (.none, scalar (.int 1))]).get? .none)
        ((dict [(.none, scalar (.int 1)), (scalar (.int 1), .none)]).get? .none) ∧
      (list []).eq (tuple []) = false ∧
      (scalar (.int 1)).eq (scalar (.bool true)) = false := by
  have hone : (scalar (.int 1)).NaNFree := .scalar nofun
  have hletter : (scalar (.str "a")).NaNFree := .scalar nofun
  have hnone : Node.none.NaNFree := .none
  obtain ⟨-, hpair, hordered, hset, hdict, hclass, hkind⟩ := eq_congruence
  refine ⟨?_, ?_, ?_, ?_, hclass _ _ (by decide), hkind _ _ (by decide)⟩
  · refine (hset _ _ ?_ ?_).mpr ⟨?_, ?_⟩
    · simp [hone, hletter]
    · simp [hone, hletter]
    · decide
    · decide
  · exact (hordered .list _ _ rfl (by simp [hone])).mpr (.cons rfl .nil)
  · exact (hpair _ _ _ _ hone hnone).mpr ⟨rfl, rfl⟩
  · exact (hdict _ _ (by simp [hone, hnone]) (by simp [hone, hnone])).mp rfl .none hnone

end Literals.Node
