/-
# Distinct elements and merged entries

What holds of the lists behind sets and dictionaries, for any notion of sameness: their elements
and keys are apart, and **a list whose elements or keys are apart is left as it is** when a set or a
dictionary is made of it again (`distinct_eq_self`, `ofPairs_eq_self`).

`exists_of_length_eq` is the counting fact behind the equality of sets: where as many elements are
apart as there are places for them, every place is taken.
-/
import Mathlib.Tactic.ByContra
import Literals.Keyed

namespace Literals.Keyed

variable {α β κ ν : Type}

/-! ## 1. Distinct elements -/

section Distinct

variable {same : α → α → Bool} {xs : List α}

/-- **Elements that are apart are all kept.** -/
theorem distinct_eq_self (h : xs.Pairwise fun x y => same x y = false) :
    distinct same xs = xs := by
  induction xs with
  | nil => rfl
  | cons x xs ih =>
    obtain ⟨hx, hxs⟩ := List.pairwise_cons.mp h
    rw [distinct, ih hxs, List.filter_eq_self.mpr fun y hy => by simp [hx y hy]]

theorem distinct_distinct : distinct same (distinct same xs) = distinct same xs :=
  distinct_eq_self (pairwise_distinct same xs)

theorem mem_of_mem_distinct {x : α} (h : x ∈ distinct same xs) : x ∈ xs :=
  (distinct_sublist same xs).mem h

theorem distinct_ne_nil (h : xs ≠ []) : distinct same xs ≠ [] := by
  cases xs with
  | nil => exact absurd rfl h
  | cons x xs => exact List.cons_ne_nil _ _

end Distinct

/-! ## 2. Entries -/

section Entries

variable {same : κ → κ → Bool} {es ps : List (κ × ν)} {P : κ → Prop} {Q : ν → Prop} {key : κ}
  {value : ν}

/-- No key is the same as a later one. -/
def KeysApart (same : κ → κ → Bool) (es : List (κ × ν)) : Prop :=
  es.Pairwise fun e f => same e.1 f.1 = false

/-- Putting an entry brings in no key and no value but its own. -/
theorem forall_put (h : ∀ e ∈ es, P e.1 ∧ Q e.2) (hkey : P key) (hvalue : Q value) :
    ∀ e ∈ put same key value es, P e.1 ∧ Q e.2 := by
  induction es with
  | nil =>
    intro e he
    obtain rfl : e = (key, value) := by simpa [put] using he
    exact ⟨hkey, hvalue⟩
  | cons f es ih =>
    obtain ⟨hf, hes⟩ := List.forall_mem_cons.mp h
    unfold put
    split
    next => exact List.forall_mem_cons.mpr ⟨⟨hf.1, hvalue⟩, hes⟩
    next => exact List.forall_mem_cons.mpr ⟨hf, ih hes⟩

theorem forall_foldl_put (h : ∀ e ∈ es, P e.1 ∧ Q e.2) (hps : ∀ p ∈ ps, P p.1 ∧ Q p.2) :
    ∀ e ∈ ps.foldl (fun es p => put same p.1 p.2 es) es, P e.1 ∧ Q e.2 := by
  induction ps generalizing es with
  | nil => exact h
  | cons p ps ih =>
    obtain ⟨hp, hps⟩ := List.forall_mem_cons.mp hps
    exact ih (forall_put h hp.1 hp.2) hps

/-- **The keys and the values of merged pairs are keys and values of the pairs.** -/
theorem forall_ofPairs (h : ∀ p ∈ ps, P p.1 ∧ Q p.2) : ∀ e ∈ ofPairs same ps, P e.1 ∧ Q e.2 :=
  forall_foldl_put nofun h

/-- An entry under a new key is put at the end. -/
theorem put_of_apart (h : ∀ e ∈ es, same e.1 key = false) :
    put same key value es = es ++ [(key, value)] := by
  induction es with
  | nil => rfl
  | cons f es ih =>
    obtain ⟨hf, hes⟩ := List.forall_mem_cons.mp h
    rw [put, if_neg (by simp [hf]), ih hes]
    rfl

theorem KeysApart.put (h : KeysApart same es) (key : κ) (value : ν) :
    KeysApart same (Keyed.put same key value es) := by
  induction es with
  | nil => exact List.pairwise_singleton _ _
  | cons f es ih =>
    obtain ⟨hf, hes⟩ := List.pairwise_cons.mp h
    unfold Keyed.put
    split
    next => exact List.pairwise_cons.mpr ⟨hf, hes⟩
    next hkey =>
      refine List.pairwise_cons.mpr ⟨fun e he => ?_, ih hes⟩
      exact (forall_put (P := fun k => same f.1 k = false) (Q := fun _ => True)
        (fun e he => ⟨hf e he, trivial⟩) (by simpa using hkey) trivial e he).1

/-- **The keys of merged pairs are apart.** -/
theorem keysApart_ofPairs (ps : List (κ × ν)) : KeysApart same (ofPairs same ps) := by
  have hfold : ∀ {es : List (κ × ν)}, KeysApart same es →
      KeysApart same (ps.foldl (fun es p => put same p.1 p.2 es) es) := by
    induction ps with
    | nil => exact id
    | cons p ps ih => exact fun h => ih (h.put p.1 p.2)
  exact hfold List.Pairwise.nil

/-- **Entries whose keys are apart are all kept.** -/
theorem ofPairs_eq_self (h : KeysApart same ps) : ofPairs same ps = ps := by
  have hfold : ∀ {es : List (κ × ν)}, KeysApart same (es ++ ps) →
      ps.foldl (fun es p => put same p.1 p.2 es) es = es ++ ps := by
    clear h
    induction ps with
    | nil => simp
    | cons p ps ih =>
      intro es hes
      obtain ⟨-, -, hacross⟩ := List.pairwise_append.mp hes
      have hput : put same p.1 p.2 es = es ++ [(p.1, p.2)] :=
        put_of_apart fun e he => hacross e he p List.mem_cons_self
      rw [List.foldl_cons, hput, ih (by simpa using hes)]
      simp
  exact hfold h

end Entries

/-! ## 3. Counting -/

section Counting

variable {R : α → β → Prop} {xs : List α} {ys : List β}

/-- A place that no element takes may be left out. -/
theorem exists_of_free {l r : List β} {place : β}
    (h : ∀ x ∈ xs, ∃ y ∈ l ++ place :: r, R x y) (hfree : ∀ x ∈ xs, ¬ R x place) :
    ∀ x ∈ xs, ∃ y ∈ l ++ r, R x y := by
  intro x hx
  obtain ⟨y, hy, hR⟩ := h x hx
  have hne : y ≠ place := by
    rintro rfl
    exact hfree x hx hR
  exact ⟨y, by simpa [hne] using hy, hR⟩

/-- There are as many places as elements that have each a place of their own. -/
theorem length_le_of_apart (hapart : xs.Pairwise fun x x' => ∀ y ∈ ys, R x y → ¬ R x' y)
    (h : ∀ x ∈ xs, ∃ y ∈ ys, R x y) : xs.length ≤ ys.length := by
  induction xs generalizing ys with
  | nil => exact Nat.zero_le _
  | cons x xs ih =>
    obtain ⟨hx, hxs⟩ := List.pairwise_cons.mp hapart
    obtain ⟨⟨place, hmem, hplace⟩, hrest⟩ := List.forall_mem_cons.mp h
    obtain ⟨l, r, rfl⟩ := List.append_of_mem hmem
    have hsub : l ++ r ⊆ l ++ place :: r := ((List.sublist_cons_self place r).append_left l).subset
    have hle := ih (hxs.imp fun hR y hy => hR y (hsub hy))
      (exists_of_free hrest fun x' hx' => hx x' hx' place hmem hplace)
    simp only [List.length_append, List.length_cons] at hle ⊢
    omega

/-- **Where as many elements as places have each a place of their own, every place is taken.** -/
theorem exists_of_length_eq (hapart : xs.Pairwise fun x x' => ∀ y ∈ ys, R x y → ¬ R x' y)
    (hlen : xs.length = ys.length) (h : ∀ x ∈ xs, ∃ y ∈ ys, R x y) :
    ∀ y ∈ ys, ∃ x ∈ xs, R x y := by
  intro place hmem
  by_contra hfree
  obtain ⟨l, r, rfl⟩ := List.append_of_mem hmem
  have hsub : l ++ r ⊆ l ++ place :: r := ((List.sublist_cons_self place r).append_left l).subset
  have hle := length_le_of_apart (hapart.imp fun hR y hy => hR y (hsub hy))
    (exists_of_free h fun x hx hR => hfree ⟨x, hx, hR⟩)
  simp only [List.length_append, List.length_cons] at hle hlen
  omega

end Counting

end Literals.Keyed
