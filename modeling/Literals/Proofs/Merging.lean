/-
# Merging pairs by their keys

`ofPairs` puts pairs one after another: of the keys that are the same the first stays, and **the
last value wins** (`get?_ofPairs`, `map_fst_ofPairs`).

The second half is about pairs that are merged twice, first by a finer notion of sameness and then
by a coarser one.  The keys come out as if only the coarser one had been used.  The values need not:
under a coarse key it is the value of **the fine key that was written first the last**, whichever
value was the last (`get?_ofPairs_ofPairs`).  The two agree where no key is written again after
another one that is coarsely the same (`Returns`).
-/
import Mathlib.Data.List.Induction
import Literals.Proofs.Collections

namespace Literals.Keyed

/-- The relation is an equivalence on the keys of which `P` holds. -/
structure Classes {κ : Type} (same : κ → κ → Bool) (P : κ → Prop) : Prop where
  refl {a : κ} : P a → same a a = true
  symm {a b : κ} : P a → P b → same a b = true → same b a = true
  trans {a b c : κ} : P a → P b → P c → same a b = true → same b c = true → same a c = true

variable {κ ν : Type} {same : κ → κ → Bool} {P : κ → Prop} {es fs ps : List (κ × ν)}
  {key k : κ} {value : ν}

/-- Keys that are the same are the same as the same keys. -/
theorem Classes.congr_left (hc : Classes same P) {a b k : κ} (ha : P a) (hb : P b) (hk : P k)
    (h : same a b = true) : same a k = same b k :=
  Bool.eq_iff_iff.mpr ⟨hc.trans hb ha hk (hc.symm ha hb h), hc.trans ha hb hk h⟩

theorem Classes.congr_right (hc : Classes same P) {a b k : κ} (ha : P a) (hb : P b) (hk : P k)
    (h : same a b = true) : same k a = same k b :=
  Bool.eq_iff_iff.mpr ⟨fun hka => hc.trans hk ha hb hka h,
    fun hkb => hc.trans hk hb ha hkb (hc.symm ha hb h)⟩

/-! ## 1. The value under a key -/

theorem get?_cons (e : κ × ν) : get? same k (e :: es) =
    if same e.1 k then some e.2 else get? same k es := by
  rw [get?, List.find?_cons]
  cases same e.1 k <;> rfl

theorem get?_put (hc : Classes same P) (hes : ∀ e ∈ es, P e.1) (hkey : P key) (hk : P k) :
    get? same k (put same key value es) = if same key k then some value else get? same k es := by
  induction es with
  | nil => exact get?_cons _
  | cons e es ih =>
    obtain ⟨he, hes⟩ := List.forall_mem_cons.mp hes
    rw [put]
    split
    next hsame =>
      rw [get?_cons, get?_cons, hc.congr_left he hkey hk hsame]
      split <;> rfl
    next hsame =>
      rw [get?_cons, get?_cons, ih hes]
      split
      next hek =>
        rw [if_neg fun hkk => hsame (hc.trans he hk hkey hek (hc.symm hkey hk hkk))]
      next => rfl

theorem ofPairs_concat (p : κ × ν) :
    ofPairs same (ps ++ [p]) = put same p.1 p.2 (ofPairs same ps) :=
  List.foldl_append

theorem forall_key_ofPairs (h : ∀ p ∈ ps, P p.1) : ∀ e ∈ ofPairs same ps, P e.1 :=
  fun e he => (forall_ofPairs (Q := fun _ => True) (fun p hp => ⟨h p hp, trivial⟩) e he).1

/-- **The last value wins.** -/
theorem get?_ofPairs (hc : Classes same P) (hps : ∀ p ∈ ps, P p.1) (hk : P k) :
    get? same k (ofPairs same ps) =
      ((ps.filter fun p => same p.1 k).getLast?).map Prod.snd := by
  induction ps using List.reverseRecOn with
  | nil => rfl
  | append_singleton ps p ih =>
    have hp : P p.1 := hps p (by simp)
    have hps : ∀ q ∈ ps, P q.1 := fun q hq => hps q (List.mem_append_left _ hq)
    rw [ofPairs_concat, get?_put hc (forall_key_ofPairs hps) hp hk, ih hps, List.filter_append]
    cases hsame : same p.1 k <;> simp [hsame]

/-- Entries with the same keys in the same places and the same value under each are the same. -/
theorem eq_of_get?_eq (hc : Classes same P) (hes : ∀ e ∈ es, P e.1) (hapart : KeysApart same es)
    (hkeys : es.map Prod.fst = fs.map Prod.fst)
    (h : ∀ e ∈ es, get? same e.1 es = get? same e.1 fs) : es = fs := by
  induction es generalizing fs with
  | nil => exact (List.map_eq_nil_iff.mp hkeys.symm).symm
  | cons e es ih =>
    cases fs with
    | nil => cases hkeys
    | cons f fs =>
      obtain ⟨hkey, hkeys⟩ := List.cons.inj hkeys
      obtain ⟨he, hes⟩ := List.forall_mem_cons.mp hes
      obtain ⟨hhead, htail⟩ := List.forall_mem_cons.mp h
      obtain ⟨hfirst, hapart⟩ := List.pairwise_cons.mp hapart
      have hvalue : e.2 = f.2 := by
        rw [get?_cons, get?_cons, ← hkey, if_pos (hc.refl he), if_pos (hc.refl he)] at hhead
        exact Option.some.inj hhead
      rw [Prod.ext hkey hvalue, ih hes hapart hkeys fun a ha => ?_]
      have hget := htail a ha
      rwa [get?_cons, get?_cons, ← hkey, hfirst a ha, if_neg Bool.false_ne_true,
          if_neg Bool.false_ne_true] at hget

/-- Pairs may be merged before or after their parts are mapped. -/
theorem ofPairs_map {κ' ν' : Type} (f : κ' → κ) (g : ν' → ν) (ps : List (κ' × ν')) :
    ofPairs same (ps.map (Prod.map f g)) =
      (ofPairs (fun a b => same (f a) (f b)) ps).map (Prod.map f g) := by
  have hput : ∀ (p : κ' × ν') (es : List (κ' × ν')),
      put same (f p.1) (g p.2) (es.map (Prod.map f g)) =
        (put (fun a b => same (f a) (f b)) p.1 p.2 es).map (Prod.map f g) := by
    intro p es
    induction es with
    | nil => rfl
    | cons e es ih =>
      rw [List.map_cons, put, put, ih]
      simp only [Prod.map_fst]
      split <;> rfl
  induction ps using List.reverseRecOn with
  | nil => rfl
  | append_singleton ps p ih =>
    rw [List.map_append, List.map_singleton, ofPairs_concat, ofPairs_concat, ih]
    exact hput p _

theorem get?_map {κ' ν' : Type} (f : κ' → κ) (g : ν' → ν) (k : κ') (es : List (κ' × ν')) :
    get? same (f k) (es.map (Prod.map f g)) =
      (get? (fun a b => same (f a) (f b)) k es).map g := by
  induction es with
  | nil => rfl
  | cons e es ih =>
    rw [List.map_cons, get?_cons, get?_cons, ih]
    simp only [Prod.map_fst]
    split <;> rfl

/-! ## 2. The keys -/

theorem map_fst_put : (put same key value es).map Prod.fst =
    if (es.map Prod.fst).any (fun a => same a key) then es.map Prod.fst
    else es.map Prod.fst ++ [key] := by
  induction es with
  | nil => rfl
  | cons e es ih =>
    rw [put, List.map_cons, List.any_cons]
    cases hsame : same e.1 key with
    | true => simp
    | false =>
      simp only [Bool.false_eq_true, if_false, List.map_cons, ih, Bool.false_or]
      split <;> rfl

theorem distinct_concat (xs : List κ) (x : κ) : distinct same (xs ++ [x]) =
    if xs.any (fun a => same a x) then distinct same xs else distinct same xs ++ [x] := by
  induction xs with
  | nil => rfl
  | cons a xs ih =>
    rw [List.cons_append, distinct, ih, distinct, List.any_cons]
    cases hsame : same a x <;> cases hany : xs.any fun a => same a x <;> simp [hsame]

/-- Every element has one that is the same among those kept. -/
theorem exists_mem_distinct (hc : Classes same P) {xs : List κ} (hxs : ∀ x ∈ xs, P x) :
    ∀ x ∈ xs, ∃ y ∈ distinct same xs, same y x = true := by
  induction xs with
  | nil => exact List.forall_mem_nil _
  | cons a xs ih =>
    obtain ⟨ha, hxs⟩ := List.forall_mem_cons.mp hxs
    refine List.forall_mem_cons.mpr ⟨⟨a, List.mem_cons_self, hc.refl ha⟩, fun x hx => ?_⟩
    obtain ⟨y, hy, hyx⟩ := ih hxs x hx
    have hPy : P y := hxs y (mem_of_mem_distinct hy)
    cases hay : same a y with
    | true => exact ⟨a, List.mem_cons_self, hc.trans ha hPy (hxs x hx) hay hyx⟩
    | false => exact ⟨y, List.mem_cons_of_mem _ (List.mem_filter.mpr ⟨hy, by simp [hay]⟩), hyx⟩

theorem any_distinct (hc : Classes same P) {xs : List κ} (hxs : ∀ x ∈ xs, P x) (hkey : P key) :
    (distinct same xs).any (fun a => same a key) = xs.any fun a => same a key := by
  rw [Bool.eq_iff_iff, List.any_eq_true, List.any_eq_true]
  constructor
  · rintro ⟨y, hy, hsame⟩
    exact ⟨y, mem_of_mem_distinct hy, hsame⟩
  · rintro ⟨x, hx, hsame⟩
    obtain ⟨y, hy, hyx⟩ := exists_mem_distinct hc hxs x hx
    exact ⟨y, hy, hc.trans (hxs y (mem_of_mem_distinct hy)) (hxs x hx) hkey hyx hsame⟩

/-- **The first of the keys that are the same stays, in its place.** -/
theorem map_fst_ofPairs (hc : Classes same P) (hps : ∀ p ∈ ps, P p.1) :
    (ofPairs same ps).map Prod.fst = distinct same (ps.map Prod.fst) := by
  induction ps using List.reverseRecOn with
  | nil => rfl
  | append_singleton ps p ih =>
    have hp : P p.1 := hps p (by simp)
    have hps : ∀ q ∈ ps, P q.1 := fun q hq => hps q (List.mem_append_left _ hq)
    have hkeys : ∀ a ∈ ps.map Prod.fst, P a := List.forall_mem_map.mpr hps
    rw [ofPairs_concat, map_fst_put, ih hps, any_distinct hc hkeys hp, List.map_append,
      List.map_singleton, distinct_concat]

/-! ## 3. Classes of keys -/

/-- Elements of whole classes may be chosen before or after the others are dropped. -/
theorem filter_distinct {xs : List κ} {f : κ → Bool}
    (hf : ∀ a ∈ xs, ∀ b ∈ xs, same a b = true → f a = f b) :
    (distinct same xs).filter f = distinct same (xs.filter f) := by
  induction xs with
  | nil => rfl
  | cons a xs ih =>
    have ih := ih fun x hx y hy =>
      hf x (List.mem_cons_of_mem _ hx) y (List.mem_cons_of_mem _ hy)
    rw [distinct, List.filter_cons, List.filter_cons]
    split
    next => rw [distinct, ← ih, List.filter_filter, List.filter_filter]; simp only [Bool.and_comm]
    next hfa =>
      rw [← ih, List.filter_filter]
      refine List.filter_congr fun y hy => ?_
      have hmem := List.mem_cons_of_mem a (mem_of_mem_distinct hy)
      cases hay : same a y with
      | false => simp
      | true => simp [← hf a List.mem_cons_self y hmem hay, hfa]

theorem filter_put {f : κ → Bool} (hf : ∀ e ∈ es, same e.1 key = true → f e.1 = f key) :
    (put same key value es).filter (fun e => f e.1) =
      if f key then put same key value (es.filter fun e => f e.1)
      else es.filter fun e => f e.1 := by
  induction es with
  | nil => rw [put, List.filter_cons]; rfl
  | cons e es ih =>
    obtain ⟨he, hes⟩ := List.forall_mem_cons.mp hf
    rw [put]
    cases hsame : same e.1 key with
    | true => cases hfk : f key <;> simp [he hsame, hfk, put, hsame]
    | false =>
      simp only [Bool.false_eq_true, if_false, List.filter_cons, ih hes]
      cases hfe : f e.1 <;> cases hfk : f key <;> simp [put, hsame]

/-- **Pairs of whole classes may be chosen before or after merging.** -/
theorem filter_ofPairs (hps : ∀ p ∈ ps, P p.1) {f : κ → Bool}
    (hf : ∀ {a b}, P a → P b → same a b = true → f a = f b) :
    (ofPairs same ps).filter (fun e => f e.1) = ofPairs same (ps.filter fun e => f e.1) := by
  induction ps using List.reverseRecOn with
  | nil => rfl
  | append_singleton ps p ih =>
    have hp : P p.1 := hps p (by simp)
    have hps : ∀ q ∈ ps, P q.1 := fun q hq => hps q (List.mem_append_left _ hq)
    rw [ofPairs_concat, filter_put fun e he => hf (forall_key_ofPairs hps e he) hp, ih hps,
      List.filter_append]
    cases hfp : f p.1 <;> simp [hfp, ofPairs_concat]

/-! ## 4. Merging twice -/

section Twice

variable {fine coarse : κ → κ → Bool}

/-- Keys that are the same as `k` come in such an order that one is written, then another, and then
the first again. -/
def Returns (fine coarse : κ → κ → Bool) (ks : List κ) (k : κ) : Prop :=
  ∃ x y z, [x, y, z].Sublist ks ∧ coarse x k = true ∧ coarse y k = true ∧ fine x z = true ∧
    fine x y = false

theorem distinct_distinct_of_finer (hc : Classes coarse P)
    (hfine : ∀ {a b}, P a → P b → fine a b = true → coarse a b = true) {xs : List κ}
    (hxs : ∀ x ∈ xs, P x) : distinct coarse (distinct fine xs) = distinct coarse xs := by
  induction xs with
  | nil => rfl
  | cons a xs ih =>
    obtain ⟨ha, hxs⟩ := List.forall_mem_cons.mp hxs
    have hkept : ∀ x ∈ distinct fine xs, P x := fun x hx => hxs x (mem_of_mem_distinct hx)
    have hclasses : ∀ {ys : List κ}, (∀ y ∈ ys, P y) →
        (distinct coarse ys).filter (fun y => !coarse a y) =
          distinct coarse (ys.filter fun y => !coarse a y) := fun hys =>
      filter_distinct fun x hx y hy hxy => by
        rw [hc.congr_right (hys x hx) (hys y hy) ha hxy]
    rw [distinct, distinct, distinct, hclasses fun x hx => hkept x (List.mem_filter.mp hx).1,
      List.filter_filter, ← ih hxs, hclasses hkept]
    -- What is not coarsely the same is not finely the same.
    refine congrArg (fun ys => a :: distinct coarse ys) (List.filter_congr fun y hy => ?_)
    cases hay : fine a y with
    | false => simp
    | true => simp [hfine ha (hkept y hy) hay]

theorem getLast?_put (h : ∀ e ∈ es.dropLast, same e.1 key = false) :
    (put same key value es).getLast?.map Prod.snd = some value := by
  induction es with
  | nil => rfl
  | cons e es ih =>
    cases es with
    | nil => rw [put]; split <;> rfl
    | cons f es =>
      rw [List.dropLast_cons_cons] at h
      obtain ⟨he, hes⟩ := List.forall_mem_cons.mp h
      have hne : put same key value (f :: es) ≠ [] := by
        rw [put]; split <;> exact List.cons_ne_nil _ _
      rw [put, he, if_neg Bool.false_ne_true, List.getLast?_cons_of_ne_nil hne]
      exact ih hes

/-- Where no key is written again after another one, the last pair is the last one merged. -/
theorem getLast?_ofPairs (hc : Classes same P) (hps : ∀ p ∈ ps, P p.1)
    (h : ∀ x y z, [x, y, z].Sublist (ps.map Prod.fst) → same x z = true → same x y = true) :
    (ofPairs same ps).getLast?.map Prod.snd = ps.getLast?.map Prod.snd := by
  cases ps using List.reverseRecOn with
  | nil => rfl
  | append_singleton ps p =>
    rw [ofPairs_concat, List.getLast?_concat]
    refine getLast?_put fun e he => ?_
    by_contra hsame
    have hps : ∀ q ∈ ps, P q.1 := fun q hq => hps q (List.mem_append_left _ hq)
    -- A key before the last one comes first before that one does, and then again in the last pair.
    have hne : ofPairs same ps ≠ [] := by
      rintro hnil
      rw [hnil] at he
      cases he
    have hpair : [e, (ofPairs same ps).getLast hne].Sublist (ofPairs same ps) := by
      conv_rhs => rw [← List.dropLast_concat_getLast hne]
      exact (List.singleton_sublist.mpr he).append (.refl _)
    have hapart := List.pairwise_pair.mp ((keysApart_ofPairs ps).sublist hpair)
    have hkeys : [e.1, ((ofPairs same ps).getLast hne).1].Sublist (ps.map Prod.fst) := by
      refine List.Sublist.trans ?_ (distinct_sublist same _)
      rw [← map_fst_ofPairs hc hps]
      exact hpair.map Prod.fst
    have hback := h e.1 _ p.1 (by
      rw [List.map_append]
      exact hkeys.append (.refl _)) (by simpa using hsame)
    rw [hback] at hapart
    cases hapart

variable (hc : Classes coarse P)
  (hfine : ∀ {a b}, P a → P b → fine a b = true → coarse a b = true) (hps : ∀ p ∈ ps, P p.1)
include hc hfine hps

/-- **The finer merging before leaves the keys as they are.** -/
theorem map_fst_ofPairs_ofPairs (hf : Classes fine P) :
    (ofPairs coarse (ofPairs fine ps)).map Prod.fst = (ofPairs coarse ps).map Prod.fst := by
  rw [map_fst_ofPairs hc (forall_key_ofPairs hps), map_fst_ofPairs hf hps,
    distinct_distinct_of_finer hc hfine (List.forall_mem_map.mpr hps), map_fst_ofPairs hc hps]

/-- **The value under a key is that of the last of its class to be left by the finer merging.** -/
theorem get?_ofPairs_ofPairs (hk : P k) : get? coarse k (ofPairs coarse (ofPairs fine ps)) =
    (ofPairs fine (ps.filter fun p => coarse p.1 k)).getLast?.map Prod.snd := by
  rw [get?_ofPairs hc (forall_key_ofPairs hps) hk, filter_ofPairs (f := fun a => coarse a k) hps]
  exact fun ha hb hab => hc.congr_left ha hb hk (hfine ha hb hab)

/-- **The last value wins all the same, where no key returns.** -/
theorem get?_ofPairs_of_not_returns (hf : Classes fine P) (hk : P k)
    (h : ¬ Returns fine coarse (ps.map Prod.fst) k) :
    get? coarse k (ofPairs coarse (ofPairs fine ps)) = get? coarse k (ofPairs coarse ps) := by
  rw [get?_ofPairs_ofPairs hc hfine hps hk, get?_ofPairs hc hps hk]
  refine getLast?_ofPairs hf (fun p hp => hps p (List.mem_filter.mp hp).1) fun x y z hxyz hxz => ?_
  by_contra hxy
  have hclass : ∀ a ∈ [x, y, z], coarse a k = true := fun a ha => by
    obtain ⟨p, hp, rfl⟩ := List.mem_map.mp (hxyz.mem ha)
    exact (List.mem_filter.mp hp).2
  exact h ⟨x, y, z, hxyz.trans (List.filter_sublist.map _), hclass x (by simp), hclass y (by simp),
    hxz, by simpa using hxy⟩

/-- Where no key returns in any class, the finer merging before changes nothing. -/
theorem ofPairs_ofPairs_of_not_returns (hf : Classes fine P)
    (h : ∀ p ∈ ps, ¬ Returns fine coarse (ps.map Prod.fst) p.1) :
    ofPairs coarse (ofPairs fine ps) = ofPairs coarse ps := by
  refine eq_of_get?_eq hc (forall_key_ofPairs (forall_key_ofPairs hps)) (keysApart_ofPairs _)
    (map_fst_ofPairs_ofPairs hc hfine hps hf) fun e he => ?_
  have hmerged : ∀ e ∈ ofPairs fine ps, ¬ Returns fine coarse (ps.map Prod.fst) e.1 :=
    forall_key_ofPairs (P := fun a => ¬ Returns fine coarse (ps.map Prod.fst) a) h
  have hreturns : ¬ Returns fine coarse (ps.map Prod.fst) e.1 :=
    forall_key_ofPairs (P := fun a => ¬ Returns fine coarse (ps.map Prod.fst) a) hmerged e he
  exact get?_ofPairs_of_not_returns hc hfine hps hf
    (forall_key_ofPairs (forall_key_ofPairs hps) e he) hreturns

end Twice

end Literals.Keyed
