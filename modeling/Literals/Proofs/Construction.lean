/-
# What the making of sets and dictionaries keeps

A set is made of elements and a dictionary of pairs in which equal ones may come again and again, in
any order and under any spelling of a key.  **Of equal elements the first stays, where it stood;
of equal keys the first stays, where it stood, with the value of the last** (`construction`).

Both are said from the list alone, with no word on how it is worked through: an element stays when
it equals none before it (`firsts`), and the value of a key is that of the last pair whose key equals
it.  What was merged once is left as it is, so lists may be merged in parts and the parts again.
-/
import Mathlib.Data.List.Induction
import Literals.Proofs.Congruence

namespace Literals

namespace Keyed

/-! ## 1. Elements -/

section Elements

variable {α : Type} {same same' : α → α → Bool} {P : α → Prop} {xs ys : List α}

/-- The elements that are the same as none before them. -/
def firsts (same : α → α → Bool) (xs : List α) : List α :=
  (xs.zipIdx.filter fun e => !(xs.take e.2).any fun y => same y e.1).map Prod.fst

theorem firsts_congr (h : ∀ x ∈ xs, ∀ y ∈ xs, same y x = same' y x) :
    firsts same xs = firsts same' xs := by
  unfold firsts
  refine congrArg (List.map Prod.fst) (List.filter_congr fun e he => ?_)
  have hmem : e.1 ∈ xs := List.fst_mem_of_mem_zipIdx he
  have hbefore : ∀ y ∈ xs.take e.2, same y e.1 = same' y e.1 := fun y hy =>
    h e.1 hmem y (List.mem_of_mem_take hy)
  grind

theorem firsts_concat (xs : List α) (x : α) : firsts same (xs ++ [x]) =
    if xs.any (fun a => same a x) then firsts same xs else firsts same xs ++ [x] := by
  -- Nothing before one of the earlier elements is new.
  have hbefore : ∀ e ∈ xs.zipIdx, (xs ++ [x]).take e.2 = xs.take e.2 := by
    intro e he
    have hlt : e.2 < xs.length := List.snd_lt_of_mem_zipIdx he
    exact List.take_append_of_le_length hlt.le
  have hearlier : (xs.zipIdx.filter fun e => !((xs ++ [x]).take e.2).any fun y => same y e.1) =
      xs.zipIdx.filter fun e => !(xs.take e.2).any fun y => same y e.1 := by
    refine List.filter_congr fun e he => ?_
    rw [hbefore e he]
  unfold firsts
  rw [List.zipIdx_append, List.filter_append, hearlier]
  cases hany : xs.any fun a => same a x <;> simp [hany]

/-- **The distinct elements are the first ones.** -/
theorem distinct_eq_firsts (xs : List α) : distinct same xs = firsts same xs := by
  induction xs using List.reverseRecOn with
  | nil => rfl
  | append_singleton xs x ih => rw [distinct_concat, firsts_concat, ih]

theorem distinct_append (xs ys : List α) : distinct same (xs ++ ys) =
    distinct same xs ++ (distinct same ys).filter fun y => !xs.any fun x => same x y := by
  induction xs with
  | nil => simp [distinct]
  | cons x xs ih =>
    rw [List.cons_append, distinct, ih, List.filter_append, List.filter_filter, distinct,
      List.cons_append]
    refine congrArg (fun zs => x :: (_ ++ zs)) (List.filter_congr fun y _ => ?_)
    rw [List.any_cons, Bool.not_or]

/-- Elements may be kept in parts and the parts again. -/
theorem distinct_append_distinct (hc : Classes same P) (hxs : ∀ x ∈ xs, P x)
    (hys : ∀ y ∈ ys, P y) :
    distinct same (distinct same xs ++ distinct same ys) = distinct same (xs ++ ys) := by
  rw [distinct_append, distinct_append, distinct_distinct, distinct_distinct]
  refine congrArg (distinct same xs ++ ·) (List.filter_congr fun y hy => ?_)
  rw [any_distinct hc hxs (hys y (mem_of_mem_distinct hy))]

end Elements

/-! ## 2. Entries -/

section Entries

variable {κ ν : Type} {same : κ → κ → Bool} {P : κ → Prop} {ps qs : List (κ × ν)} {k : κ}

theorem ofPairs_ofPairs : ofPairs same (ofPairs same ps) = ofPairs same ps :=
  ofPairs_eq_self (keysApart_ofPairs ps)

/-- What the second of two lists says of a key overrides what the first one says. -/
theorem get?_ofPairs_append (hc : Classes same P) (hps : ∀ p ∈ ps, P p.1)
    (hqs : ∀ q ∈ qs, P q.1) (hk : P k) :
    get? same k (ofPairs same (ps ++ qs)) =
      (get? same k (ofPairs same qs)).or (get? same k (ofPairs same ps)) := by
  have hboth : ∀ p ∈ ps ++ qs, P p.1 := List.forall_mem_append.mpr ⟨hps, hqs⟩
  rw [get?_ofPairs hc hboth hk, get?_ofPairs hc hps hk, get?_ofPairs hc hqs hk, List.filter_append,
    List.getLast?_append, Option.map_or]

/-- **Pairs may be merged in parts and the parts again.** -/
theorem ofPairs_append_ofPairs (hc : Classes same P) (hps : ∀ p ∈ ps, P p.1)
    (hqs : ∀ q ∈ qs, P q.1) :
    ofPairs same (ofPairs same ps ++ ofPairs same qs) = ofPairs same (ps ++ qs) := by
  have hes : ∀ e ∈ ofPairs same ps, P e.1 := forall_key_ofPairs hps
  have hfs : ∀ f ∈ ofPairs same qs, P f.1 := forall_key_ofPairs hqs
  have hparts : ∀ e ∈ ofPairs same ps ++ ofPairs same qs, P e.1 :=
    List.forall_mem_append.mpr ⟨hes, hfs⟩
  have hwhole : ∀ p ∈ ps ++ qs, P p.1 := List.forall_mem_append.mpr ⟨hps, hqs⟩
  have hkeys : (ofPairs same (ofPairs same ps ++ ofPairs same qs)).map Prod.fst =
      (ofPairs same (ps ++ qs)).map Prod.fst := by
    rw [map_fst_ofPairs hc hparts, map_fst_ofPairs hc hwhole, List.map_append, List.map_append,
      map_fst_ofPairs hc hps, map_fst_ofPairs hc hqs]
    exact distinct_append_distinct hc (List.forall_mem_map.mpr hps) (List.forall_mem_map.mpr hqs)
  refine eq_of_get?_eq hc (forall_key_ofPairs hparts) (keysApart_ofPairs _) hkeys fun e he => ?_
  have hkey : P e.1 := forall_key_ofPairs hparts e he
  rw [get?_ofPairs_append hc hes hfs hkey, ofPairs_ofPairs, ofPairs_ofPairs,
    get?_ofPairs_append hc hps hqs hkey]

end Entries

end Keyed

namespace Node

variable {ps qs : List (Node × Node)}

/-! ## 3. Trees -/

theorem classes_proper : Keyed.Classes same Proper where
  refl _ := same_refl _
  symm ha _ := same_symm ha
  trans _ _ _ := same_trans

/-- The elements of a dictionary are its entries as pairs. -/
theorem children_dict (ps : List (Node × Node)) :
    (dict ps).children = (dict ps).entries.map ofPair := by
  rw [entries_dict]
  rfl

theorem pairs?_map_ofPair (es : List (Node × Node)) : pairs? (es.map ofPair) = .ok es := by
  induction es with
  | nil => rfl
  | cons e es ih =>
    change (pairs? (es.map ofPair)).map (e :: ·) = .ok (e :: es)
    rw [ih]
    rfl

/-- Merging what was merged changes nothing. -/
theorem dict_ofPairs : dict (Keyed.ofPairs same ps) = dict ps := by
  unfold dict
  rw [Keyed.ofPairs_ofPairs]

/-- Pairs may be merged in parts and what comes of the parts again. -/
theorem dict_append (hps : ∀ p ∈ ps, p.1.NaNFree) (hqs : ∀ q ∈ qs, q.1.NaNFree) :
    dict (Keyed.ofPairs same ps ++ Keyed.ofPairs same qs) = dict (ps ++ qs) := by
  unfold dict
  rw [Keyed.ofPairs_append_ofPairs classes_made hps hqs]

theorem pairs?_children_dict (ps : List (Node × Node)) :
    pairs? (dict ps).children = .ok (Keyed.ofPairs same ps) :=
  pairs?_map_ofPair _

/-- **A set keeps the elements that equal none before them.** -/
theorem children_set {xs : List Node} (hxs : ∀ x ∈ xs, x.NaNFree) :
    (set xs).children = Keyed.firsts eq xs := by
  have hsame : ∀ x ∈ xs, ∀ y ∈ xs, eq y x = same y x := fun x _ y hy => eq_eq_same (hxs y hy) x
  rw [Keyed.firsts_congr hsame, ← Keyed.distinct_eq_firsts]
  rfl

/-- **A dictionary keeps the keys that equal none before them.** -/
theorem keys_dict (hps : ∀ p ∈ ps, p.1.NaNFree) :
    (dict ps).entries.map Prod.fst = Keyed.firsts eq (ps.map Prod.fst) := by
  have hkeys : ∀ x ∈ ps.map Prod.fst, x.NaNFree := List.forall_mem_map.mpr hps
  rw [← children_set hkeys, entries_dict, Keyed.map_fst_ofPairs classes_made hps]
  rfl

/-- **The value under a key is that of the last pair whose key equals it.** -/
theorem get?_dict_eq_last (hps : ∀ p ∈ ps, p.1.NaNFree) {k : Node} (hk : k.Proper) :
    (dict ps).get? k = ((ps.filter fun p => p.1.eq k).getLast?).map Prod.snd := by
  have hproper : ∀ p ∈ ps, p.1.Proper := fun p hp => (hps p hp).proper
  have hclass : (ps.filter fun p => p.1.eq k) = ps.filter fun p => p.1.same k :=
    List.filter_congr fun p hp => eq_eq_same (hps p hp) k
  rw [get?_dict hps, Keyed.get?_ofPairs classes_proper hproper hk, hclass]

/-- An entry holds the value that is found under its key. -/
theorem get?_of_mem_entries (hps : ∀ p ∈ ps, p.1.NaNFree) {e : Node × Node}
    (he : e ∈ (dict ps).entries) : (dict ps).get? e.1 = some e.2 := by
  rw [entries_dict] at he
  have hkeys : ∀ e ∈ Keyed.ofPairs same ps, e.1.NaNFree := Keyed.forall_key_ofPairs hps
  rw [get?_dict hps,
    Keyed.get?_eq_some_iff classes_made hkeys (Keyed.keysApart_ofPairs ps) (hkeys e he)]
  exact ⟨e, he, same_refl e.1, rfl⟩

/-- **How sets and dictionaries are made.**  A set keeps of its elements those that equal none
before them, in their order.  A dictionary keeps of its keys those that equal none before them, in
their order, each with the value of the last pair whose key equals it, and that is what is found
under any key; no key without such a pair is found.  Making either of what it holds changes nothing,
and pairs may be merged in parts and what comes of the parts again. -/
theorem construction :
    (∀ xs : List Node, (∀ x ∈ xs, x.NaNFree) → (set xs).children = Keyed.firsts eq xs) ∧
      (∀ ps : List (Node × Node), (∀ p ∈ ps, p.1.NaNFree) →
        (dict ps).children = (dict ps).entries.map ofPair ∧
          (dict ps).entries.map Prod.fst = Keyed.firsts eq (ps.map Prod.fst) ∧
          (∀ e ∈ (dict ps).entries,
            ((ps.filter fun p => p.1.eq e.1).getLast?).map Prod.snd = some e.2) ∧
          ∀ k : Node, k.Proper →
            (dict ps).get? k = ((ps.filter fun p => p.1.eq k).getLast?).map Prod.snd) ∧
      (∀ xs : List Node, set (set xs).children = set xs) ∧
      (∀ ps : List (Node × Node), (pairs? (dict ps).children).map dict = .ok (dict ps)) ∧
      ∀ ps qs : List (Node × Node), (∀ p ∈ ps, p.1.NaNFree) → (∀ q ∈ qs, q.1.NaNFree) →
        (pairs? ((dict ps).children ++ (dict qs).children)).map dict = .ok (dict (ps ++ qs)) := by
  refine ⟨fun xs => children_set, fun ps hps => ⟨children_dict ps, keys_dict hps, ?_, ?_⟩, ?_, ?_,
    ?_⟩
  · intro e he
    have hkey : e.1.NaNFree := by
      rw [entries_dict] at he
      exact Keyed.forall_key_ofPairs hps e he
    rw [← get?_dict_eq_last hps hkey.proper]
    exact get?_of_mem_entries hps he
  · intro k hk
    exact get?_dict_eq_last hps hk
  · intro xs
    exact congrArg (sequence .set) Keyed.distinct_distinct
  · intro ps
    rw [pairs?_children_dict, Except.map, dict_ofPairs]
  · intro ps qs hps hqs
    have hpairs : pairs? ((dict ps).children ++ (dict qs).children) =
        .ok (Keyed.ofPairs same ps ++ Keyed.ofPairs same qs) := by
      rw [children_dict, children_dict, ← List.map_append, pairs?_map_ofPair, entries_dict,
        entries_dict]
    rw [hpairs, Except.map, dict_append hps hqs]

/-- Zero comes twice, spelled in two ways: the first spelling stays as an element and as a key, and
the value comes from the last pair. -/
theorem construction_twice :
    (set [scalar (.float (.finite true .zero)), .none, scalar (.float (.finite false .zero))]).children =
        [scalar (.float (.finite true .zero)), .none] ∧
      (dict [(scalar (.float (.finite true .zero)), .none), (.none, .none),
          (scalar (.float (.finite false .zero)), scalar (.int 7))]).get?
            (scalar (.float (.finite false .zero))) = some (scalar (.int 7)) ∧
      (pairs? ((dict [(.none, scalar (.int 1))]).children ++
          (dict [(.none, scalar (.int 2))]).children)).map dict =
        .ok (dict [(.none, scalar (.int 1)), (.none, scalar (.int 2))]) := by
  have hnone : Node.none.NaNFree := .none
  have hzero : ∀ negative, (scalar (.float (.finite negative .zero))).NaNFree := by
    intro negative
    refine .scalar ?_
    rintro x ⟨⟩
    rfl
  obtain ⟨hset, hdict, -, -, hparts⟩ := construction
  refine ⟨?_, ?_, hparts _ _ (by simp [hnone]) (by simp [hnone])⟩
  · exact hset _ (by simp [hnone, hzero])
  · obtain ⟨-, -, -, hget⟩ := hdict [(scalar (.float (.finite true .zero)), .none), (.none, .none),
      (scalar (.float (.finite false .zero)), scalar (.int 7))] (by simp [hnone, hzero])
    exact hget _ (.scalar _)

end Node

end Literals
