/-
# Which trees have no value

Whether a value may be an element or a key is found out when the set or the dictionary is made, from
values that were merged before.  **It can be told from the tree alone**: `Node.hashable` looks at
brackets and at nothing else, and a tree that the reader returns has no value exactly when some set
has an element, or some dictionary a key, that is not hashable (`fold_error_of_read`).

The error is about the first such node in the order in which nodes are completed, and it names the
value of the first of its elements or keys that is not hashable.
-/
import Literals.Proofs.EqualFolds
import Literals.Proofs.RoundTrip

namespace Literals

/-! ## 1. By brackets -/

namespace Node

mutual

/-- Whether the tree may be an element of a set or a key: it is no list, set or dictionary, and no
tuple with one of them in it at any depth of tuples.  A pair counts as a tuple of two, which is what
its value is. -/
def hashable : Node → Bool
  | .sequence .tuple xs => allHashable xs
  | .sequence .list _ => false
  | .sequence .set _ => false
  | .sequence .dict _ => false
  | .keyValue k v => k.hashable && v.hashable
  | _ => true

/-- Whether all of several trees may be elements of a set. -/
def allHashable : List Node → Bool
  | [] => true
  | x :: xs => x.hashable && allHashable xs

end

/-- What a collection tells apart: the elements of a set, the keys of a dictionary. -/
def members : Node → List Node
  | .sequence .set xs => xs
  | .sequence .dict xs => (Node.sequence .dict xs).entries.map Prod.fst
  | _ => []

/-- Whether a set has an element, or a dictionary a key, that is not hashable. -/
def refuses (n : Node) : Bool :=
  n.members.any fun x => !x.hashable

/-- The error of a set or a dictionary about the value of an element or a key. -/
def refusal : Node → Value → FoldError
  | .sequence .dict _, v => .unhashableKey v
  | _, v => .unhashableElement v

theorem refuses_iff {n : Node} : n.refuses = true ↔ ∃ x ∈ n.members, x.hashable = false := by
  simp [refuses]

/-! ## 2. By values -/

/-- Values are hashable together when the trees are, if each of them is when its tree is. -/
theorem allHashable_of_forall₂ {xs : List Node} {values : List Value}
    (h : List.Forall₂ (fun x v => x.fold = .ok v) xs values)
    (hxs : ∀ x ∈ xs, ∀ {v}, x.fold = .ok v → v.hashable = x.hashable) :
    Value.allHashable values = allHashable xs := by
  induction h with
  | nil => rfl
  | cons hx _ ih =>
    obtain ⟨hhead, htail⟩ := List.forall_mem_cons.mp hxs
    rw [Value.allHashable, allHashable, hhead hx, ih htail]

/-- **The value of a tree is hashable exactly when the tree is.** -/
theorem hashable_of_fold {n : Node} {v : Value} (h : n.fold = .ok v) : v.hashable = n.hashable := by
  induction n using induct generalizing v with
  | scalar s =>
    obtain rfl := Except.ok.inj h
    cases s <;> rfl
  | none =>
    obtain rfl := Except.ok.inj h
    rfl
  | complex re im =>
    obtain rfl := Except.ok.inj h
    rfl
  | keyValue k v ihk ihv =>
    rw [fold] at h
    split at h
    next => cases h
    next a ha =>
      split at h
      next => cases h
      next b hb =>
        obtain rfl := Except.ok.inj h
        simp [Value.hashable, Value.allHashable, hashable, ihk ha, ihv hb]
  | sequence shape xs ih =>
    obtain ⟨values, hcollect, hvalues⟩ := fold_sequence_eq_ok h
    cases shape with
    | tuple =>
      obtain rfl := Except.ok.inj hcollect
      exact allHashable_of_forall₂ hvalues ih
    | list =>
      obtain rfl := Except.ok.inj hcollect
      rfl
    | set =>
      obtain ⟨-, rfl⟩ := Value.setOf_eq_ok_iff.mp hcollect
      rfl
    | dict =>
      obtain ⟨-, rfl⟩ := Value.dictOf_eq_ok_iff.mp hcollect
      rfl
    | bare => cases hcollect

theorem HasValue.hashable {n : Node} (h : n.HasValue) : n.value.hashable = n.hashable :=
  hashable_of_fold h

/-- The first value that is not hashable is that of the first such tree. -/
theorem find?_map_value {xs : List Node} (h : ∀ x ∈ xs, x.HasValue) :
    (xs.map value).find? (fun v => !v.hashable) =
      (xs.find? fun x => !x.hashable).map value := by
  induction xs with
  | nil => rfl
  | cons x xs ih =>
    obtain ⟨hx, hxs⟩ := List.forall_mem_cons.mp h
    rw [List.map_cons, List.find?_cons, List.find?_cons, hx.hashable, ih hxs]
    cases x.hashable <;> rfl

/-! ## 3. One node -/

variable {ok : Scalar → Prop} {n m : Node} {e : FoldError}

theorem members_pairs (es : List (Node × Node)) :
    (sequence .dict (es.map ofPair)).members = es.map Prod.fst := by
  rw [members, entries_pairs]

/-- A node that has a value refuses nothing. -/
theorem refuses_of_ok (hn : n.Made ok True) {v : Value} (h : n.fold = .ok v) :
    n.refuses = false := by
  rw [Bool.eq_false_iff, Ne, refuses_iff]
  rintro ⟨x, hx, hxh⟩
  have hkey : x.HasValue ∧ x.value.hashable = true := by
    cases n with
    | sequence shape xs =>
      cases shape with
      | set => exact (fold_set_eq_ok_iff.mp h).1 x hx
      | dict =>
        obtain ⟨es, rfl, -⟩ := hn.exists_entries
        rw [members_pairs] at hx
        obtain ⟨e, he, rfl⟩ := List.mem_map.mp hx
        have hentry := (fold_pairs_eq_ok_iff.mp h).1 e he
        exact ⟨hentry.1, hentry.2.2⟩
      | _ => cases hx
    | _ => cases hx
  rw [hkey.1.hashable, hxh] at hkey
  cases hkey.2

/-- **Where the children of a node have values and the node has none, it refuses the first of its
elements or keys that is not hashable.** -/
theorem exists_refused (hm : m.Made ok True) (he : e ≠ .unfoldable) {values : List Value}
    (hvalues : foldAll m.children = .ok values) (hcombine : m.combine values = .error e) :
    ∃ x v, m.members.find? (fun x => !x.hashable) = some x ∧ x.fold = .ok v ∧
      e = .about m.refusal v := by
  cases m with
  | sequence shape xs =>
    obtain ⟨hxs, rfl⟩ := foldAll_eq_ok_iff_hasValue.mp hvalues
    cases shape with
    | set =>
      obtain ⟨v, hfind, rfl⟩ := Value.setOf_eq_error_iff.mp hcombine
      rw [find?_map_value hxs, Option.map_eq_some_iff] at hfind
      obtain ⟨x, hx, rfl⟩ := hfind
      exact ⟨x, x.value, hx, hxs x (List.mem_of_find?_eq_some hx), rfl⟩
    | dict =>
      obtain ⟨es, rfl, -⟩ := hm.exists_entries
      have hes : ∀ e ∈ es, e.1.HasValue ∧ e.2.HasValue := fun e he =>
        hasValue_ofPair_iff.mp (hxs _ (List.mem_map_of_mem he))
      have hkeys : ∀ x ∈ es.map Prod.fst, x.HasValue :=
        List.forall_mem_map.mpr fun e he => (hes e he).1
      have hall := hvalues.symm.trans (foldAll_entries hes)
      rw [Except.ok.inj hall, combine, Shape.collect, pairsOf_tuples,
        Value.dictOf_eq_error_iff, map_fst_entryValues, find?_map_value hkeys] at hcombine
      obtain ⟨v, hfind, rfl⟩ := hcombine
      obtain ⟨x, hx, rfl⟩ := Option.map_eq_some_iff.mp hfind
      rw [members_pairs]
      exact ⟨x, x.value, hx, hkeys x (List.mem_of_find?_eq_some hx), rfl⟩
    | bare =>
      obtain rfl : FoldError.unfoldable = e := Except.error.inj hcombine
      exact absurd rfl he
    | _ => cases hcombine
  | _ => cases hcombine

/-! ## 4. The first node that fails -/

/-- The first element with the one property is the first one with another that it has too, where
this one comes only with the former. -/
theorem find?_eq_some_of_imp {α : Type} {p q : α → Bool} {xs : List α} {x : α}
    (h : xs.find? p = some x) (hx : q x = true) (hqp : ∀ y ∈ xs, q y = true → p y = true) :
    xs.find? q = some x := by
  rw [List.find?_eq_some_iff_append] at h ⊢
  obtain ⟨-, before, after, rfl, hbefore⟩ := h
  refine ⟨hx, before, after, rfl, fun y hy => ?_⟩
  have hmem : y ∈ before ++ x :: after := List.mem_append_left _ hy
  cases hq : q y with
  | false => rfl
  | true =>
    have hp := hbefore y hy
    rw [hqp y hmem hq] at hp
    cases hp

/-- **A tree without a value fails at the first node that refuses something.** -/
theorem find?_refuses (hn : n.Plain) (h : n.fold = .error e) :
    ∃ m x v, n.postorder.find? refuses = some m ∧
      m.members.find? (fun x => !x.hashable) = some x ∧ x.fold = .ok v ∧
      e = .about m.refusal v := by
  obtain ⟨m, hfirst, values, hvalues, hcombine⟩ := exists_firstFailure n e h
  have hmade : ∀ m ∈ n.postorder, m.Made Scalar.NotNaN True := hn.naNFree.of_mem_postorder
  have he : e ≠ .unfoldable := by
    rintro rfl
    exact hn.fold_ne_unfoldable h
  obtain ⟨x, v, hx, hv, rfl⟩ :=
    exists_refused (hmade m (List.mem_of_find?_eq_some hfirst)) he hvalues hcombine
  have hrefuses : m.refuses = true :=
    refuses_iff.mpr ⟨x, List.mem_of_find?_eq_some hx, by simpa using List.find?_some hx⟩
  have hfails : ∀ y ∈ n.postorder, y.refuses = true → y.fails = true := by
    intro y hy hyr
    cases hfold : y.fold with
    | error e' => exact fails_of_error hfold
    | ok w =>
      rw [refuses_of_ok (hmade y hy) hfold] at hyr
      cases hyr
  exact ⟨m, x, v, find?_eq_some_of_imp hfirst hrefuses hfails, hx, hv, rfl⟩

/-- A tree with a value has no node that refuses something. -/
theorem refuses_of_mem_postorder (hn : n.Plain) {v : Value} (h : n.fold = .ok v)
    (hm : m ∈ n.postorder) : m.refuses = false := by
  have hnone := List.find?_eq_none.mp (find?_postorder_of_ok n v h) m hm
  have hmade : m.Made Scalar.NotNaN True := hn.naNFree.of_mem_postorder m hm
  cases hfold : m.fold with
  | ok w => exact refuses_of_ok hmade hfold
  | error e =>
    rw [fails_of_error hfold] at hnone
    exact absurd rfl hnone

end Node

namespace Reader

open Node

/-- **A tree that is read has no value exactly when a set in it has an element, or a dictionary a
key, that is not hashable**: a list, a set or a dictionary, or a tuple that holds one at any depth
of tuples.  The error is then that of the first such set or dictionary, children before their
parent and from left to right, and names the value of the first such element or key of it. -/
theorem fold_error_of_read {text : String} {limit : Option Int} {t : Tree}
    (h : read text limit = .ok t) :
    ((∃ e, t.fold = .error e) ↔
        ∃ m ∈ t.root.postorder, ∃ x ∈ m.members, x.hashable = false) ∧
      ((∀ m ∈ t.root.postorder, ∀ x ∈ m.members, x.hashable = true) → ∃ v, t.fold = .ok v) ∧
      ∀ e, t.fold = .error e →
        ∃ m x v, t.root.postorder.find? refuses = some m ∧
          m.members.find? (fun x => !x.hashable) = some x ∧ x.fold = .ok v ∧
          e = m.refusal v := by
  have hbuilt : t.root.Built Scalar.Readable := (built_of_read h).mono fun s hs => hs.1
  have hplain := hbuilt.plain
  have hshort : ¬ t.root.Overlong :=
    (hbuilt.made.mono (fun _ => id) False.elim).not_overlong fun _ hs => hs.bounded
  rw [Tree.fold_eq]
  have hiff : (∃ e, t.root.fold = .error e) ↔
      ∃ m ∈ t.root.postorder, ∃ x ∈ m.members, x.hashable = false := by
    constructor
    · rintro ⟨e, he⟩
      obtain ⟨m, x, v, hm, hx, -, -⟩ := find?_refuses hplain he
      exact ⟨m, List.mem_of_find?_eq_some hm, x, List.mem_of_find?_eq_some hx,
        by simpa using List.find?_some hx⟩
    · rintro ⟨m, hm, hrefused⟩
      cases hfold : t.root.fold with
      | error e => exact ⟨e, rfl⟩
      | ok v =>
        have hfalse := refuses_of_mem_postorder hplain hfold hm
        rw [refuses_iff.mpr hrefused] at hfalse
        cases hfalse
  refine ⟨hiff, fun hall => ?_, fun e he => ?_⟩
  · cases hfold : t.root.fold with
    | ok v => exact ⟨v, rfl⟩
    | error e =>
      obtain ⟨m, hm, x, hx, hxh⟩ := hiff.mp ⟨e, hfold⟩
      rw [hall m hm x hx] at hxh
      cases hxh
  · obtain ⟨m, x, v, hm, hx, hv, hrefusal⟩ := find?_refuses hplain he
    refine ⟨m, x, v, hm, hx, hv, hrefusal.trans (FoldError.about_of_unhashable ?_)⟩
    rw [← hrefusal]
    exact (hplain.fold_error_cases he).resolve_right fun hlong => hshort hlong.2

/-- A list in a tuple in the second of two sets. -/
theorem fold_error_of_read_tuple :
    read "[\x7b1\x7d,\x7b(1,[2])\x7d]" none = .ok ⟨.list [.set [.scalar (.int 1)],
        .set [.tuple [.scalar (.int 1), .list [.scalar (.int 2)]]]]⟩ ∧
      ∃ e, (Tree.mk (.list [.set [.scalar (.int 1)],
        .set [.tuple [.scalar (.int 1), .list [.scalar (.int 2)]]]])).fold = .error e := by
  have hint : ∀ k, InInt32 k → (Node.scalar (.int k)).Built Scalar.Readable := fun k hk =>
    .scalar hk
  have hone := hint 1 (by decide)
  have htwo := hint 2 (by decide)
  have hlist : (Node.list [.scalar (.int 2)]).Built Scalar.Readable := .list (by simp [htwo])
  have htuple : (Node.tuple [.scalar (.int 1), .list [.scalar (.int 2)]]).Built
      Scalar.Readable := .tuple (by simp [hone, hlist])
  have hset : ∀ {x : Node}, x.Built Scalar.Readable → (Node.set [x]).Built Scalar.Readable :=
    fun hx => .set (List.cons_ne_nil _ _) (by simp [hx])
  have hbuilt : (Node.list [.set [.scalar (.int 1)],
      .set [.tuple [.scalar (.int 1), .list [.scalar (.int 2)]]]]).Built Scalar.Readable :=
    .list (by simp [hset hone, hset htuple])
  have hread := read_text hbuilt
  have htext : (Node.list [.set [.scalar (.int 1)],
      .set [.tuple [.scalar (.int 1), .list [.scalar (.int 2)]]]]).text =
        "[\x7b1\x7d,\x7b(1,[2])\x7d]" := by
    decide +kernel
  rw [htext] at hread
  refine ⟨hread, (fold_error_of_read hread).1.mpr ?_⟩
  refine ⟨.set [.tuple [.scalar (.int 1), .list [.scalar (.int 2)]]], ?_,
    .tuple [.scalar (.int 1), .list [.scalar (.int 2)]], ?_, rfl⟩
  · exact mem_postorder_iff.mpr (.inr ⟨_, List.mem_cons_of_mem _ List.mem_cons_self,
      mem_postorder_iff.mpr (.inl rfl)⟩)
  · exact List.mem_singleton.mpr rfl

end Reader

end Literals
