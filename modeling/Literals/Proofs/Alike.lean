/-
# Collections with the same elements

Two sets are equal when they have as many elements and each of the one is found in the other; two
dictionaries likewise, with their entries.  Here this is said without counting, and of what the
collections were made of: **every element of either list has its like in the other**
(`distinct_alike_iff`), and **every key has like values in both, or none** (`entries_alike_iff`).

One notion of sameness stands for both languages, that of trees and that of values.
-/
import Mathlib.Data.Option.Defs
import Literals.Proofs.Merging

namespace Literals.Keyed

variable {κ ν : Type} {same : κ → κ → Bool} {P : κ → Prop}

/-- Things with keys that are apart are not the same as one key. -/
theorem apart_places {α β : Type} {f : α → κ} {g : β → κ} {xs : List α} {ys : List β}
    (hc : Classes same P) (hxs : ∀ x ∈ xs, P (f x)) (hys : ∀ y ∈ ys, P (g y))
    (h : xs.Pairwise fun x x' => same (f x) (f x') = false) :
    xs.Pairwise fun x x' => ∀ y ∈ ys, same (f x) (g y) = true → ¬ same (f x') (g y) = true := by
  refine h.imp_of_mem fun {x x'} hx hx' hne y hy hxy hxy' => ?_
  have hback := hc.symm (hxs x' hx') (hys y hy) hxy'
  rw [hc.trans (hxs x hx) (hys y hy) (hxs x' hx') hxy hback] at hne
  cases hne

/-! ## 1. Elements -/

section Elements

variable {xs ys : List κ}

/-- An element has its like among those that are kept, where it has one at all. -/
theorem exists_like_distinct (hc : Classes same P) (hys : ∀ y ∈ ys, P y) {x : κ} (hx : P x)
    (h : ∃ y ∈ ys, same x y = true) : ∃ y ∈ distinct same ys, same x y = true := by
  obtain ⟨y, hy, hxy⟩ := h
  obtain ⟨z, hz, hzy⟩ := exists_mem_distinct hc hys y hy
  have hPz := hys z (mem_of_mem_distinct hz)
  exact ⟨z, hz, hc.trans hx (hys y hy) hPz hxy (hc.symm hPz (hys y hy) hzy)⟩

/-- An element has its like where all that are kept have theirs. -/
theorem exists_like_of_distinct (hc : Classes same P) (hxs : ∀ x ∈ xs, P x) (hys : ∀ y ∈ ys, P y)
    (h : ∀ x ∈ distinct same xs, ∃ y ∈ ys, same x y = true) :
    ∀ x ∈ xs, ∃ y ∈ ys, same x y = true := by
  intro x hx
  obtain ⟨z, hz, hzx⟩ := exists_mem_distinct hc hxs x hx
  obtain ⟨y, hy, hzy⟩ := h z hz
  have hPz := hxs z (mem_of_mem_distinct hz)
  exact ⟨y, hy, hc.trans (hxs x hx) hPz (hys y hy) (hc.symm hPz (hxs x hx) hzx) hzy⟩

/-- **Sets are equal exactly when every element of either has its like in the other**, whatever the
order and the repetitions. -/
theorem distinct_alike_iff (hc : Classes same P) (hxs : ∀ x ∈ xs, P x) (hys : ∀ y ∈ ys, P y) :
    ((distinct same xs).length = (distinct same ys).length ∧
        ∀ x ∈ distinct same xs, ∃ y ∈ distinct same ys, same x y = true) ↔
      (∀ x ∈ xs, ∃ y ∈ ys, same x y = true) ∧ ∀ y ∈ ys, ∃ x ∈ xs, same y x = true := by
  have hkept : ∀ x ∈ distinct same xs, P x := fun x hx => hxs x (mem_of_mem_distinct hx)
  have hkept' : ∀ y ∈ distinct same ys, P y := fun y hy => hys y (mem_of_mem_distinct hy)
  have hapart := apart_places (f := id) (g := id) hc hkept hkept' (pairwise_distinct same xs)
  constructor
  · rintro ⟨hlen, h⟩
    have htaken := exists_of_length_eq hapart hlen h
    constructor
    · refine exists_like_of_distinct hc hxs hys fun x hx => ?_
      obtain ⟨y, hy, hxy⟩ := h x hx
      exact ⟨y, mem_of_mem_distinct hy, hxy⟩
    · refine exists_like_of_distinct hc hys hxs fun y hy => ?_
      obtain ⟨x, hx, hxy⟩ := htaken y hy
      exact ⟨x, mem_of_mem_distinct hx, hc.symm (hkept x hx) (hkept' y hy) hxy⟩
  · rintro ⟨h, h'⟩
    have hlike : ∀ x ∈ distinct same xs, ∃ y ∈ distinct same ys, same x y = true := fun x hx =>
      exists_like_distinct hc hys (hkept x hx) (h x (mem_of_mem_distinct hx))
    have hlike' : ∀ y ∈ distinct same ys, ∃ x ∈ distinct same xs, same y x = true := fun y hy =>
      exists_like_distinct hc hxs (hkept' y hy) (h' y (mem_of_mem_distinct hy))
    have hapart' := apart_places (f := id) (g := id) hc hkept' hkept (pairwise_distinct same ys)
    exact ⟨Nat.le_antisymm (length_le_of_apart hapart hlike) (length_le_of_apart hapart' hlike'),
      hlike⟩

end Elements

/-! ## 2. Entries -/

section Entries

variable {es fs : List (κ × ν)} {k : κ} {v : ν}

theorem get?_eq_none_iff : get? same k es = none ↔ ∀ e ∈ es, same e.1 k = false := by
  simp [get?, List.find?_eq_none]

/-- A key is found by any notion of sameness that agrees on it. -/
theorem get?_congr {same' : κ → κ → Bool} (h : ∀ e ∈ es, same e.1 k = same' e.1 k) :
    get? same k es = get? same' k es := by
  induction es with
  | nil => rfl
  | cons e es ih =>
    obtain ⟨he, hes⟩ := List.forall_mem_cons.mp h
    rw [get?_cons, get?_cons, he, ih hes]

/-- Where the keys are apart, the value under a key is that of any entry with such a key. -/
theorem get?_eq_some_iff (hc : Classes same P) (hes : ∀ e ∈ es, P e.1) (hapart : KeysApart same es)
    (hk : P k) : get? same k es = some v ↔ ∃ e ∈ es, same e.1 k = true ∧ e.2 = v := by
  induction es with
  | nil => simp [get?]
  | cons e es ih =>
    obtain ⟨he, hes⟩ := List.forall_mem_cons.mp hes
    obtain ⟨hfirst, hapart⟩ := List.pairwise_cons.mp hapart
    rw [get?_cons]
    cases hek : same e.1 k with
    | true =>
      simp only [if_true, Option.some.injEq, List.mem_cons, exists_eq_or_imp, hek, true_and]
      refine ⟨Or.inl, ?_⟩
      rintro (h | ⟨f, hf, hfk, -⟩)
      · exact h
      · have hef := hc.trans he hk (hes f hf) hek (hc.symm (hes f hf) hk hfk)
        rw [hfirst f hf] at hef
        cases hef
    | false =>
      simp [hek, ih hes hapart]

/-- Where a key has like values in both, its entry has its like. -/
theorem exists_like_entry (hc : Classes same P) {R : ν → ν → Prop} (hes : ∀ e ∈ es, P e.1)
    (hfs : ∀ f ∈ fs, P f.1) (hapart : KeysApart same es) (hapart' : KeysApart same fs)
    {e : κ × ν} (he : e ∈ es) (h : Option.Rel R (get? same e.1 es) (get? same e.1 fs)) :
    ∃ f ∈ fs, same e.1 f.1 = true ∧ R e.2 f.2 := by
  have hPe := hes e he
  rw [(get?_eq_some_iff hc hes hapart hPe).mpr ⟨e, he, hc.refl hPe, rfl⟩] at h
  cases hget : get? same e.1 fs with
  | none =>
    rw [hget] at h
    cases h
  | some w =>
    rw [hget] at h
    obtain ⟨f, hf, hfe, rfl⟩ := (get?_eq_some_iff hc hfs hapart' hPe).mp hget
    cases h with
    | some hR => exact ⟨f, hf, hc.symm (hfs f hf) hPe hfe, hR⟩

/-- **Dictionaries are equal exactly when every key has like values in both, or none.** -/
theorem entries_alike_iff (hc : Classes same P) {R : ν → ν → Prop} (hes : ∀ e ∈ es, P e.1)
    (hfs : ∀ f ∈ fs, P f.1) (hapart : KeysApart same es) (hapart' : KeysApart same fs) :
    (es.length = fs.length ∧ ∀ e ∈ es, ∃ f ∈ fs, same e.1 f.1 = true ∧ R e.2 f.2) ↔
      ∀ k, P k → Option.Rel R (get? same k es) (get? same k fs) := by
  have hplaces := apart_places (f := Prod.fst) (g := Prod.fst) hc hes hfs hapart
  have hplaces' := apart_places (f := Prod.fst) (g := Prod.fst) hc hfs hes hapart'
  constructor
  · rintro ⟨hlen, h⟩ k hk
    cases hget : get? same k es with
    | some v =>
      obtain ⟨e, he, hek, rfl⟩ := (get?_eq_some_iff hc hes hapart hk).mp hget
      obtain ⟨f, hf, hef, hR⟩ := h e he
      have hfk := hc.trans (hfs f hf) (hes e he) hk (hc.symm (hes e he) (hfs f hf) hef) hek
      rw [(get?_eq_some_iff hc hfs hapart' hk).mpr ⟨f, hf, hfk, rfl⟩]
      exact .some hR
    | none =>
      rw [get?_eq_none_iff] at hget
      have htaken := exists_of_length_eq hplaces hlen fun e he => by
        obtain ⟨f, hf, hef, -⟩ := h e he
        exact ⟨f, hf, hef⟩
      have hnone : get? same k fs = none := get?_eq_none_iff.mpr fun f hf => by
        obtain ⟨e, he, hef⟩ := htaken f hf
        rw [← hc.congr_left (hes e he) (hfs f hf) hk hef, hget e he]
      rw [hnone]
      exact .none
  · intro h
    have hlike : ∀ e ∈ es, ∃ f ∈ fs, same e.1 f.1 = true ∧ R e.2 f.2 := fun e he =>
      exists_like_entry hc hes hfs hapart hapart' he (h e.1 (hes e he))
    have hflip : ∀ {a b : Option ν}, Option.Rel R a b → Option.Rel (fun w v => R v w) b a := by
      intro a b hrel
      cases hrel with
      | some hR => exact .some hR
      | none => exact .none
    have hlike' : ∀ f ∈ fs, ∃ e ∈ es, same f.1 e.1 = true ∧ R e.2 f.2 := fun f hf =>
      exists_like_entry hc hfs hes hapart' hapart hf (hflip (h f.1 (hfs f hf)))
    have hkeys : ∀ e ∈ es, ∃ f ∈ fs, same e.1 f.1 = true := fun e he =>
      (hlike e he).imp fun f hf => ⟨hf.1, hf.2.1⟩
    have hkeys' : ∀ f ∈ fs, ∃ e ∈ es, same f.1 e.1 = true := fun f hf =>
      (hlike' f hf).imp fun e he => ⟨he.1, he.2.1⟩
    exact ⟨Nat.le_antisymm (length_le_of_apart hplaces hkeys)
      (length_le_of_apart hplaces' hkeys'), hlike⟩

end Entries

end Literals.Keyed
