/-
# Which error a fold has

A set or a dictionary that refuses a value has an error that shows the value, and a value with an
integer of more than `longestInteger` digits in it cannot be shown.  So **a plain tree without a
value has something in it that is not hashable, and says so unless an integer in it is too long**
(`Plain.fold_error_cases`).

Integers of 64 bits are never too long (`Scalar.Bounded.writable_value`).  The kinds of integers
have 32 and 64 bits, so the other error is only seen by who puts an integer under a kind that cannot
hold it.
-/
import Literals.Proofs.SameValues

namespace Literals

open Number

/-! ## 1. Values with a text -/

namespace FoldError

/-- The error is about an element or a key that is not hashable. -/
inductive Unhashable : FoldError → Prop
  | element (v : Value) : Unhashable (.unhashableElement v)
  | key (v : Value) : Unhashable (.unhashableKey v)

theorem about_of_writable {make : Value → FoldError} {v : Value} (h : v.writable = true) :
    about make v = make v :=
  if_pos h

theorem about_of_not_writable {make : Value → FoldError} {v : Value} (h : v.writable = false) :
    about make v = .overlongInteger :=
  if_neg (by simp [h])

/-- An error about a value is what it is made to be, unless the value has no text. -/
theorem about_cases {make : Value → FoldError} (hmake : ∀ v, (make v).Unhashable) (v : Value) :
    (about make v).Unhashable ∨ about make v = .overlongInteger ∧ v.writable = false := by
  cases h : v.writable with
  | true =>
    rw [about_of_writable h]
    exact .inl (hmake v)
  | false => exact .inr ⟨about_of_not_writable h, rfl⟩

/-- An error about something that is not hashable shows its value. -/
theorem about_of_unhashable {make : Value → FoldError} {v : Value} (h : (about make v).Unhashable) :
    about make v = make v := by
  cases hv : v.writable with
  | true => exact about_of_writable hv
  | false =>
    rw [about_of_not_writable hv] at h
    cases h

end FoldError

namespace Value

variable {xs : List Value} {e : FoldError} {v w : Value}

theorem allWritable_iff : allWritable xs = true ↔ ∀ x ∈ xs, x.writable = true := by
  induction xs with
  | nil => simp [allWritable]
  | cons x xs ih => rw [allWritable, Bool.and_eq_true, ih, List.forall_mem_cons]

theorem entriesWritable_iff {es : List (Value × Value)} : entriesWritable es = true ↔
    ∀ e ∈ es, e.1.writable = true ∧ e.2.writable = true := by
  induction es with
  | nil => simp [entriesWritable]
  | cons e es ih =>
    rw [entriesWritable, Bool.and_eq_true, Bool.and_eq_true, ih, List.forall_mem_cons]

/-- A pair has a text when both of its parts do. -/
theorem writable_pair_iff :
    (tuple [v, w]).writable = true ↔ v.writable = true ∧ w.writable = true := by
  change allWritable [v, w] = true ↔ _
  rw [allWritable_iff, List.forall_mem_cons, List.forall_mem_singleton]

theorem mem_pairsOf {e : Value × Value} (h : e ∈ pairsOf xs) : tuple [e.1, e.2] ∈ xs := by
  obtain ⟨x, hx, hpair⟩ := List.mem_filterMap.mp h
  split at hpair
  next k v =>
    obtain rfl := Option.some.inj hpair
    exact hx
  next => cases hpair

/-! ## 2. Sets and dictionaries -/

/-- A set holds hashable values only. -/
theorem setOf_eq_ok_iff : setOf xs = .ok v ↔
    (∀ x ∈ xs, x.hashable = true) ∧ v = .set (Keyed.distinct same xs) := by
  rw [setOf]
  split
  next x hfind =>
    refine iff_of_false (by simp) fun h => ?_
    simpa [h.1 x (List.mem_of_find?_eq_some hfind)] using List.find?_some hfind
  next hfind =>
    have hall : ∀ x ∈ xs, x.hashable = true := by simpa using hfind
    rw [and_iff_right hall, Except.ok.injEq, eq_comm]

/-- A dictionary holds hashable keys only. -/
theorem dictOf_eq_ok_iff {es : List (Value × Value)} : dictOf es = .ok v ↔
    (∀ e ∈ es, e.1.hashable = true) ∧ v = .dict (Keyed.ofPairs same es) := by
  rw [dictOf]
  split
  next e hfind =>
    refine iff_of_false (by simp) fun h => ?_
    simpa [h.1 e (List.mem_of_find?_eq_some hfind)] using List.find?_some hfind
  next hfind =>
    have hall : ∀ e ∈ es, e.1.hashable = true := by simpa using hfind
    rw [and_iff_right hall, Except.ok.injEq, eq_comm]

/-- The error of a set is about the first element that is not hashable. -/
theorem setOf_eq_error_iff : setOf xs = .error e ↔
    ∃ v, xs.find? (fun v => !v.hashable) = some v ∧ e = .about .unhashableElement v := by
  rw [setOf]
  split
  next v hfind => simp [hfind, eq_comm]
  next hfind => simp [hfind]

/-- The error of a dictionary is about the first key that is not hashable. -/
theorem dictOf_eq_error_iff {ps : List (Value × Value)} : dictOf ps = .error e ↔
    ∃ v, (ps.map Prod.fst).find? (fun v => !v.hashable) = some v ∧
      e = .about .unhashableKey v := by
  have hkey : (fun v : Value => !v.hashable) ∘ Prod.fst = fun e : Value × Value => !e.1.hashable :=
    rfl
  rw [dictOf, List.find?_map, hkey]
  split
  next p hfind => simp [hfind, eq_comm]
  next hfind => simp [hfind]

end Value

namespace Shape

variable {shape : Shape} {values : List Value} {v : Value} {e : FoldError}

/-- A collection of values with a text has a text. -/
theorem writable_of_collect (h : shape.collect values = .ok v)
    (hvalues : ∀ w ∈ values, w.writable = true) : v.writable = true := by
  cases shape with
  | tuple =>
    obtain rfl := Except.ok.inj h
    exact Value.allWritable_iff.mpr hvalues
  | list =>
    obtain rfl := Except.ok.inj h
    exact Value.allWritable_iff.mpr hvalues
  | set =>
    obtain ⟨-, rfl⟩ := Value.setOf_eq_ok_iff.mp h
    exact Value.allWritable_iff.mpr fun w hw => hvalues w (Keyed.mem_of_mem_distinct hw)
  | dict =>
    obtain ⟨-, rfl⟩ := Value.dictOf_eq_ok_iff.mp h
    have hpairs : ∀ p ∈ Value.pairsOf values, p.1.writable = true ∧ p.2.writable = true :=
      fun p hp => Value.writable_pair_iff.mp (hvalues _ (Value.mem_pairsOf hp))
    exact Value.entriesWritable_iff.mpr (Keyed.forall_ofPairs
      (P := fun k : Value => k.writable = true) (Q := fun w : Value => w.writable = true) hpairs)
  | bare => cases h

/-- **The error of a collection is about something that is not hashable, unless one of its values
has no text.** -/
theorem collect_error_cases (hshape : shape ≠ .bare) (h : shape.collect values = .error e) :
    e.Unhashable ∨ e = .overlongInteger ∧ ∃ w ∈ values, w.writable = false := by
  cases shape with
  | tuple | list => cases h
  | set =>
    obtain ⟨v, hfind, rfl⟩ := Value.setOf_eq_error_iff.mp h
    refine (FoldError.about_cases .element v).imp_right fun hv => ⟨hv.1, v, ?_, hv.2⟩
    exact List.mem_of_find?_eq_some hfind
  | dict =>
    obtain ⟨v, hfind, rfl⟩ := Value.dictOf_eq_error_iff.mp h
    refine (FoldError.about_cases .key v).imp_right fun hv => ?_
    obtain ⟨p, hp, rfl⟩ := List.mem_map.mp (List.mem_of_find?_eq_some hfind)
    refine ⟨hv.1, _, Value.mem_pairsOf hp, Bool.eq_false_iff.mpr fun hpair => ?_⟩
    rw [(Value.writable_pair_iff.mp hpair).1] at hv
    cases hv.2
  | bare => exact absurd rfl hshape

/-- Only a bare sequence has no collection at all. -/
theorem collect_ne_unfoldable (hshape : shape ≠ .bare) (values : List Value) :
    shape.collect values ≠ .error .unfoldable := by
  intro h
  rcases collect_error_cases hshape h with hunhashable | ⟨hoverlong, -⟩
  · cases hunhashable
  · cases hoverlong

end Shape

/-! ## 3. Trees -/

/-- If the scalar is an integer, it has 64 bits. -/
def Scalar.Bounded (s : Scalar) : Prop :=
  ∀ k, s = .int k ∨ s = .long k → InInt64 k

/-- **An integer of 64 bits is not too long.** -/
theorem Scalar.Bounded.writable_value {s : Scalar} (h : s.Bounded) : s.value.writable = true := by
  have hshort : ∀ k, InInt64 k → (Value.int k).writable = true := by
    intro k hk
    refine decide_eq_true (Grammar.length_digits_le ?_)
    unfold InInt64 at hk
    omega
  cases s with
  | int k => exact hshort k (h k (.inl rfl))
  | long k => exact hshort k (h k (.inr rfl))
  | _ => rfl

/-- What is read under a kind of integer is in its range. -/
theorem Scalar.Readable.bounded {s : Scalar} (h : s.Readable) : s.Bounded := by
  rintro k (rfl | rfl)
  · exact InInt32.toInt64 h
  · exact h.1

namespace Node

variable {ok : Scalar → Prop} {n m : Node} {v : Value} {e : FoldError}

/-- A scalar of the tree is an integer that is too long. -/
def Overlong (n : Node) : Prop :=
  ∃ s, scalar s ∈ n.postorder ∧ s.value.writable = false

/-- What holds of the children of every node that it holds of, holds of the nodes of the tree. -/
theorem forall_postorder {p : Node → Prop} (hp : ∀ n, p n → ∀ x ∈ n.children, p x) (hn : p n) :
    ∀ m ∈ n.postorder, p m := by
  induction n using induct_children with
  | parent n ih =>
    intro m hm
    rcases mem_postorder_iff.mp hm with rfl | ⟨x, hx, hm⟩
    · exact hn
    · exact ih x hx (hp n hn x hx) m hm

theorem Overlong.of_children {x : Node} (h : x.Overlong) (hx : x ∈ n.children) : n.Overlong := by
  obtain ⟨s, hs, hlong⟩ := h
  exact ⟨s, mem_postorder_iff.mpr (.inr ⟨x, hx, hs⟩), hlong⟩

theorem Overlong.of_postorder (h : m.Overlong) (hm : m ∈ n.postorder) : n.Overlong := by
  by_contra hn
  have hparts := forall_postorder (p := fun n => ¬ n.Overlong)
    (fun n hn x hx hlong => hn (hlong.of_children hx)) hn
  exact hparts m hm h

/-- The value of a tree has a text where no integer of the tree is too long. -/
theorem writable_of_fold (h : n.fold = .ok v) (hn : ¬ n.Overlong) : v.writable = true := by
  induction n using induct_children generalizing v with
  | parent n ih =>
    rw [fold_eq_combine] at h
    cases hall : foldAll n.children with
    | error e =>
      rw [hall] at h
      cases h
    | ok values =>
      have hvalues : ∀ w ∈ values, w.writable = true := by
        intro w hw
        obtain ⟨x, hx, hfold⟩ := exists_of_mem_values (foldAll_eq_ok_iff.mp hall) hw
        exact ih x hx hfold fun hlong => hn (hlong.of_children hx)
      simp only [hall] at h
      cases n with
      | scalar s =>
        obtain rfl := Except.ok.inj h
        rw [← Bool.not_eq_false]
        exact fun hlong => hn ⟨s, mem_postorder_iff.mpr (.inl rfl), hlong⟩
      | none =>
        obtain rfl := Except.ok.inj h
        rfl
      | complex re im =>
        obtain rfl := Except.ok.inj h
        rfl
      | keyValue k w =>
        obtain rfl := Except.ok.inj h
        exact Value.allWritable_iff.mpr hvalues
      | sequence shape xs => exact Shape.writable_of_collect h hvalues

/-- Where no part of a tree is a bare sequence, nor the tree itself, this is not its error. -/
theorem fold_ne_unfoldable {n : Node} (hn : ∀ values, n.combine values ≠ .error .unfoldable)
    (h : ∀ x ∈ n.children, x.fold ≠ .error .unfoldable) : n.fold ≠ .error .unfoldable := by
  intro hfold
  rw [fold_eq_combine] at hfold
  cases hall : foldAll n.children with
  | ok values =>
    rw [hall] at hfold
    exact hn values hfold
  | error e =>
    rw [hall] at hfold
    obtain rfl := Except.error.inj hfold
    obtain ⟨before, x, after, values, hsplit, -, hx⟩ := exists_of_foldAll_eq_error hall
    exact h x (by simp [hsplit]) hx

/-- A plain tree has no bare sequence in it. -/
theorem Plain.fold_ne_unfoldable {n : Node} (h : n.Plain) : n.fold ≠ .error .unfoldable := by
  refine Plain.induct ?scalar ?none ?complex ?sequence ?dict h
  case scalar => exact fun _ _ => nofun
  case none => exact nofun
  case complex => exact fun _ _ _ _ => nofun
  case sequence =>
    intro shape xs hbare _ ih
    exact Node.fold_ne_unfoldable (Shape.collect_ne_unfoldable hbare) ih
  case dict =>
    intro es ih
    have hcollect : ∀ values, Shape.dict.collect values ≠ .error .unfoldable :=
      Shape.collect_ne_unfoldable (by decide)
    refine Node.fold_ne_unfoldable hcollect ?_
    refine List.forall_mem_map.mpr fun e he => Node.fold_ne_unfoldable nofun ?_
    exact List.forall_mem_cons.mpr ⟨(ih e he).1, List.forall_mem_singleton.mpr (ih e he).2⟩

/-- **A plain tree without a value holds something that is not hashable, and its error says so,
unless an integer of the tree is too long.** -/
theorem Plain.fold_error_cases (hn : n.Plain) (h : n.fold = .error e) :
    e.Unhashable ∨ e = .overlongInteger ∧ n.Overlong := by
  obtain ⟨m, hfirst, values, hvalues, hcombine⟩ := exists_firstFailure n e h
  cases m with
  | sequence shape xs =>
    have hshape : shape ≠ .bare := by
      rintro rfl
      obtain rfl : FoldError.unfoldable = e := Except.error.inj hcombine
      exact hn.fold_ne_unfoldable h
    refine (Shape.collect_error_cases hshape hcombine).imp_right ?_
    rintro ⟨rfl, w, hw, hwritable⟩
    refine ⟨rfl, by_contra fun hlong => ?_⟩
    obtain ⟨x, hx, hfold⟩ := exists_of_mem_values (foldAll_eq_ok_iff.mp hvalues) hw
    have hpart : ¬ x.Overlong := fun hx' =>
      hlong ((hx'.of_children hx).of_postorder (List.mem_of_find?_eq_some hfirst))
    rw [writable_of_fold hfold hpart] at hwritable
    cases hwritable
  | _ => cases hcombine

/-- An integer that is too long, in a list where a set cannot hold one: there is no text to say
so with. -/
theorem fold_overlong {k : Int} (hk : longestInteger < (digits k.natAbs).length) :
    (Node.set [.list [.scalar (.int k)]]).fold = .error .overlongInteger := by
  have hvalue : (Value.list [.int k]).writable = false := by
    refine Bool.eq_false_iff.mpr fun h => ?_
    have hlength : (Value.int k).writable = true := Value.allWritable_iff.mp h _ (by simp)
    exact absurd (of_decide_eq_true hlength) (Nat.not_le.mpr hk)
  have hfold : (Node.set [.list [.scalar (.int k)]]).fold = Value.setOf [.list [.int k]] := rfl
  rw [hfold, Value.setOf_eq_error_iff]
  exact ⟨.list [.int k], rfl, (FoldError.about_of_not_writable hvalue).symm⟩

/-! ## 4. Trees that a program makes -/

theorem Made.children (h : n.Made ok True) : ∀ x ∈ n.children, x.Made ok True := by
  cases h with
  | scalar | none | complex => exact nofun
  | keyValue _ hk hv => exact List.forall_mem_cons.mpr ⟨hk, List.forall_mem_singleton.mpr hv⟩
  | tuple hxs | list hxs | bare _ hxs => exact hxs
  | set hxs => exact fun x hx => hxs x (Keyed.mem_of_mem_distinct hx)
  | @dict es hk hv =>
    have hkept : ∀ e ∈ Keyed.ofPairs same es, e.1.Made ok True ∧ e.2.Made ok True :=
      Keyed.forall_ofPairs fun e he => ⟨hk e he, hv e he⟩
    refine List.forall_mem_map.mpr fun e he => ?_
    exact .keyValue trivial (hkept e he).1 (hkept e he).2

/-- The nodes of a tree that a program makes are made likewise. -/
theorem Made.of_mem_postorder (h : n.Made ok True) : ∀ m ∈ n.postorder, m.Made ok True :=
  forall_postorder (fun _ hn => hn.children) h

/-- A tree whose integers have 64 bits has none that is too long. -/
theorem Made.not_overlong (h : n.Made ok True) (hok : ∀ s, ok s → s.Bounded) :
    ¬ n.Overlong := by
  rintro ⟨s, hs, hlong⟩
  cases h.of_mem_postorder _ hs with
  | scalar hscalar =>
    rw [(hok s hscalar).writable_value] at hlong
    cases hlong

end Node

end Literals
