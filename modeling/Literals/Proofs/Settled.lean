/-
# Texts that settle

A tree is read back from its text with its elements and keys merged anew and with the integers that
the digits denote.  **The text stays what it is exactly where this changes nothing** (`Settled`): no
set and no dictionary of it repeats an element or a key, and no zero of it has a minus
(`chars_reread_iff`).

Merging leaves fewer elements, and a tree that is not settled becomes shorter; so it is lengths that
are compared, and one part that becomes shorter cannot be made up for by another.
-/
import Mathlib.Algebra.Order.BigOperators.Group.List
import Literals.Proofs.Merging
import Literals.Proofs.Rereading

namespace Literals

open Number Grammar

/-! ## 1. Merging makes less -/

namespace Keyed

variable {α κ ν : Type}

section Sublist

variable {w : α → Nat} {xs ys : List α}

/-- A part of a list weighs less than the list. -/
theorem sum_lt_of_sublist (hw : ∀ x, 0 < w x) (h : xs.Sublist ys) (hne : xs ≠ ys) :
    (xs.map w).sum < (ys.map w).sum := by
  induction h with
  | slnil => exact absurd rfl hne
  | @cons xs ys y h ih =>
    have hy := hw y
    rw [List.map_cons, List.sum_cons]
    rcases eq_or_ne xs ys with rfl | hne'
    · omega
    · have := ih hne'
      omega
  | @cons_cons xs ys x h ih =>
    have := ih fun heq => hne (heq ▸ rfl)
    rw [List.map_cons, List.map_cons, List.sum_cons, List.sum_cons]
    omega

theorem sum_le_of_sublist (hw : ∀ x, 0 < w x) (h : xs.Sublist ys) :
    (xs.map w).sum ≤ (ys.map w).sum := by
  rcases eq_or_ne xs ys with rfl | hne
  · exact le_rfl
  · exact (sum_lt_of_sublist hw h hne).le

/-- **Repeated elements make a list heavier than its distinct ones.** -/
theorem sum_distinct_lt {same : α → α → Bool} (hw : ∀ x, 0 < w x)
    (h : ¬ xs.Pairwise fun x y => same x y = false) :
    ((distinct same xs).map w).sum < (xs.map w).sum :=
  sum_lt_of_sublist hw (distinct_sublist same xs) fun heq => h (heq ▸ pairwise_distinct same xs)

end Sublist

section Entries

variable {same : κ → κ → Bool} {v : κ → Nat} {w : ν → Nat} {es ps : List (κ × ν)} {key : κ}
  {value : ν}

/-- Under a key that is known, a value takes the place of another. -/
theorem sum_put_lt (hv : 0 < v key) (h : ∃ e ∈ es, same e.1 key = true) :
    ((put same key value es).map fun e => v e.1 + w e.2).sum <
      (es.map fun e => v e.1 + w e.2).sum + (v key + w value) := by
  induction es with
  | nil => simp at h
  | cons e es ih =>
    unfold put
    split
    next => simp only [List.map_cons, List.sum_cons]; omega
    next hkey =>
      have := ih (by simpa [hkey] using h)
      simp only [List.map_cons, List.sum_cons]
      omega

theorem sum_put_le (hv : 0 < v key) :
    ((put same key value es).map fun e => v e.1 + w e.2).sum ≤
      (es.map fun e => v e.1 + w e.2).sum + (v key + w value) := by
  by_cases h : ∃ e ∈ es, same e.1 key = true
  · exact (sum_put_lt hv h).le
  · rw [put_of_apart (by simpa using h)]
    simp

theorem ofPairs_ne_nil (h : ps ≠ []) : ofPairs same ps ≠ [] := by
  obtain ⟨ps, p, rfl⟩ := List.eq_nil_or_concat' ps |>.resolve_left h
  rw [ofPairs_concat]
  cases ofPairs same ps with
  | nil => exact List.cons_ne_nil _ _
  | cons e es =>
    unfold put
    split <;> exact List.cons_ne_nil _ _

/-- **Repeated keys make pairs heavier than the entries that are merged from them.** -/
theorem sum_ofPairs_lt (hv : ∀ k, 0 < v k) (h : ¬ KeysApart same ps) :
    ((ofPairs same ps).map fun e => v e.1 + w e.2).sum <
      (ps.map fun e => v e.1 + w e.2).sum := by
  induction ps using List.reverseRecOn with
  | nil => exact absurd List.Pairwise.nil h
  | append_singleton ps p ih =>
    rw [ofPairs_concat, List.map_append, List.sum_append, List.map_singleton, List.sum_singleton]
    by_cases hps : KeysApart same ps
    · rw [ofPairs_eq_self hps]
      refine sum_put_lt (hv _) ?_
      by_contra hnew
      refine h (List.pairwise_append.mpr ⟨hps, List.pairwise_singleton _ _, fun e he q hq => ?_⟩)
      obtain rfl := List.mem_singleton.mp hq
      exact Bool.eq_false_iff.mpr fun hsame => hnew ⟨e, he, hsame⟩
    · exact (sum_put_le (hv p.1)).trans_lt (Nat.add_lt_add_right (ih hps) _)

end Entries

end Keyed

/-! ## 2. Lengths of texts -/

namespace Node

/-- The length of an element's text with a comma. -/
def width (x : Node) : Nat :=
  x.chars.length + 1

theorem width_pos (x : Node) : 0 < x.width :=
  Nat.succ_pos _

/-- A pair has a colon and a blank between its parts. -/
theorem width_ofPair (e : Node × Node) : (ofPair e).width = (e.1.width + 1) + e.2.width := by
  simp only [width, ofPair, chars, List.length_append, List.length_cons]
  omega

/-- The keys and the values of some pairs. -/
def parts (es : List (Node × Node)) : List Node :=
  es.flatMap fun e => [e.1, e.2]

theorem forall_mem_parts {P : Node → Prop} {es : List (Node × Node)} :
    (∀ x ∈ parts es, P x) ↔ ∀ e ∈ es, P e.1 ∧ P e.2 := by
  rw [parts, List.forall_mem_flatMap]
  simp

theorem parts_reread (es : List (Node × Node)) :
    parts (es.map fun e => (e.1.reread, e.2.reread)) = (parts es).map reread := by
  rw [parts, List.flatMap_map, parts, List.map_flatMap]
  rfl

theorem sum_width_ofPair (es : List (Node × Node)) :
    ((es.map ofPair).map width).sum = (es.map fun e => (e.1.width + 1) + e.2.width).sum := by
  rw [List.map_map]
  exact congrArg List.sum (List.map_congr_left fun e _ => width_ofPair e)

theorem sum_width_parts (es : List (Node × Node)) :
    ((es.map ofPair).map width).sum = ((parts es).map width).sum + es.length := by
  rw [sum_width_ofPair]
  induction es with
  | nil => rfl
  | cons e es ih =>
    have hparts : parts (e :: es) = e.1 :: e.2 :: parts es := rfl
    rw [hparts, List.map_cons, List.sum_cons, ih, List.map_cons, List.map_cons, List.sum_cons,
      List.sum_cons, List.length_cons]
    omega

/-- **Repeated keys make pairs longer than what they are merged to.** -/
theorem sum_width_ofPairs_lt {ps : List (Node × Node)} (h : ¬ Keyed.KeysApart same ps) :
    (((Keyed.ofPairs same ps).map ofPair).map width).sum < ((ps.map ofPair).map width).sum := by
  rw [sum_width_ofPair, sum_width_ofPair]
  exact Keyed.sum_ofPairs_lt (v := fun k => k.width + 1) (fun k => Nat.succ_pos _) h

theorem sum_width_ofPairs_le (ps : List (Node × Node)) :
    (((Keyed.ofPairs same ps).map ofPair).map width).sum ≤ ((ps.map ofPair).map width).sum := by
  by_cases h : Keyed.KeysApart same ps
  · rw [Keyed.ofPairs_eq_self h]
  · exact (sum_width_ofPairs_lt h).le

theorem length_continued (xs : List Node) :
    (continued xs).length = (xs.map width).sum := by
  induction xs with
  | nil => rfl
  | cons x xs ih =>
    rw [continued, List.map_cons, List.sum_cons, List.length_cons, List.length_append, ih, width]
    omega

/-- The first element has no comma before it. -/
theorem length_joined {xs : List Node} (hne : xs ≠ []) :
    (joined xs).length + 1 = (xs.map width).sum := by
  cases xs with
  | nil => exact absurd rfl hne
  | cons x xs =>
    rw [joined, List.length_append, length_continued, List.map_cons, List.sum_cons, width]
    omega

theorem length_sequence (shape : Shape) (xs : List Node) :
    (sequence shape xs).chars.length = (joined xs).length + (lastComma shape xs).length + 2 := by
  simp only [chars, List.length_cons, List.length_append, List.length_nil]

theorem continued_map {f : Node → Node} {xs : List Node} (h : ∀ x ∈ xs, (f x).chars = x.chars) :
    continued (xs.map f) = continued xs := by
  induction xs with
  | nil => rfl
  | cons x xs ih =>
    obtain ⟨hx, hxs⟩ := List.forall_mem_cons.mp h
    rw [List.map_cons, continued, continued, hx, ih hxs]

/-- Texts that are the same one by one are the same with commas between them. -/
theorem joined_map {f : Node → Node} {xs : List Node} (h : ∀ x ∈ xs, (f x).chars = x.chars) :
    joined (xs.map f) = joined xs := by
  cases xs with
  | nil => rfl
  | cons x xs =>
    obtain ⟨hx, hxs⟩ := List.forall_mem_cons.mp h
    rw [List.map_cons, joined, joined, hx, continued_map hxs]

/-- Where each part has the same text, so have the parts in brackets. -/
theorem chars_sequence_map (shape : Shape) {xs : List Node} {f : Node → Node}
    (h : ∀ x ∈ xs, (f x).chars = x.chars) :
    (sequence shape (xs.map f)).chars = (sequence shape xs).chars := by
  rw [chars, chars, joined_map h, lastComma_map]

/-- Lighter elements make a shorter text, where the last comma stays. -/
theorem length_sequence_lt {shape : Shape} {xs ys : List Node} (hne : ys ≠ [])
    (hcomma : lastComma shape ys = lastComma shape xs)
    (hlt : (ys.map width).sum < (xs.map width).sum) :
    (sequence shape ys).chars.length < (sequence shape xs).chars.length := by
  have hxs : xs ≠ [] := by
    rintro rfl
    exact absurd hlt (Nat.not_lt_zero _)
  have hys := length_joined hne
  have hjoined := length_joined hxs
  rw [length_sequence, length_sequence, hcomma]
  omega

end Node

/-! ## 3. Scalars -/

namespace Scalar

/-- A zero with a minus: the only scalar whose text is not that of what is read there. -/
def minusZero : Scalar :=
  .decimal ⟨true, 0, 0⟩

theorem chars_reread {s : Scalar} (h : s.Readable) (hs : s ≠ minusZero) :
    s.reread.chars = s.chars := by
  cases s with
  | decimal d =>
    obtain ⟨negative, coefficient, exponent⟩ := d
    obtain rfl : exponent = 0 := h
    by_cases hnarrow : InInt64 (Decimal.integer ⟨negative, coefficient, 0⟩)
    · have hsign : (decide (Decimal.integer ⟨negative, coefficient, 0⟩ < 0)) = negative := by
        cases negative with
        | false => simp [Decimal.integer]
        | true =>
          have hzero : coefficient ≠ 0 := by
            rintro rfl
            exact hs rfl
          exact decide_eq_true (show -(coefficient : Int) < 0 by omega)
      have hsize : (Decimal.integer ⟨negative, coefficient, 0⟩).natAbs = coefficient := by
        cases negative <;> simp [Decimal.integer]
      rw [reread_of_narrow hnarrow, chars_ofInt, intText_eq, hsign, hsize]
      exact (text_of_exponent (d := ⟨negative, coefficient, 0⟩) rfl).symm
    · rw [reread_of_wide hnarrow]
  | _ => rfl

theorem length_reread_minusZero : minusZero.reread.chars.length < minusZero.chars.length := by
  decide

end Scalar

/-! ## 4. Trees -/

namespace Node

/-- The tree has no zero with a minus, and no elements or keys in one collection that are the same
when they are read back. -/
inductive Settled : Node → Prop
  | scalar {s : Scalar} : s ≠ .minusZero → Settled (.scalar s)
  | none : Settled .none
  | complex {re im : Binary64} : Settled (.complex re im)
  | tuple {xs : List Node} : (∀ x ∈ xs, Settled x) → Settled (.tuple xs)
  | list {xs : List Node} : (∀ x ∈ xs, Settled x) → Settled (.list xs)
  | set {xs : List Node} : (∀ x ∈ xs, Settled x) →
      (xs.map reread).Pairwise (fun x y => x.same y = false) → Settled (.sequence .set xs)
  | dict {es : List (Node × Node)} : (∀ e ∈ es, Settled e.1) → (∀ e ∈ es, Settled e.2) →
      Keyed.KeysApart same (es.map fun e => (e.1.reread, e.2.reread)) →
      Settled (.sequence .dict (es.map ofPair))

theorem ofPair_injective : Function.Injective ofPair := by
  rintro ⟨k, v⟩ ⟨l, w⟩ h
  obtain ⟨rfl, rfl⟩ := Node.keyValue.inj h
  rfl

/-- The keys and values of what can be written can be written. -/
theorem Written.entries {ok : Scalar → Prop} {es : List (Node × Node)}
    (h : (sequence .dict (es.map ofPair)).Written ok) :
    ∀ e ∈ es, e.1.Written ok ∧ e.2.Written ok := by
  generalize hn : sequence .dict (es.map ofPair) = n at h
  cases h with
  | dict hk hv =>
    obtain rfl := List.map_injective_iff.mpr ofPair_injective (Node.sequence.inj hn).2
    exact fun e he => ⟨hk e he, hv e he⟩
  | _ => cases hn

theorem map_ofPair_reread (es : List (Node × Node)) :
    (es.map fun e => (e.1.reread, e.2.reread)).map ofPair = (es.map ofPair).map reread := by
  rw [List.map_map, List.map_map]
  rfl

theorem chars_ofPair {e : Node × Node} (hk : e.1.reread.chars = e.1.chars)
    (hv : e.2.reread.chars = e.2.chars) : (ofPair e).reread.chars = (ofPair e).chars := by
  change (keyValue e.1.reread e.2.reread).chars = (keyValue e.1 e.2).chars
  rw [chars, chars, hk, hv]

/-- **A settled tree is read back with the same text.** -/
theorem Settled.chars_reread {n : Node} (hn : n.Written Scalar.Readable) (h : n.Settled) :
    n.reread.chars = n.chars := by
  induction h with
  | scalar hs =>
    cases hn with
    | scalar hreadable => exact Scalar.chars_reread hreadable hs
  | none => rfl
  | complex => rfl
  | @tuple xs _ ih =>
    cases hn with
    | tuple hxs =>
      rw [reread_tuple]
      exact chars_sequence_map .tuple fun x hx => ih x hx (hxs x hx)
  | @list xs _ ih =>
    cases hn with
    | list hxs =>
      rw [reread_list]
      exact chars_sequence_map .list fun x hx => ih x hx (hxs x hx)
  | @set xs _ hapart ih =>
    cases hn with
    | set _ hxs =>
      rw [reread_elements, Node.set, Keyed.distinct_eq_self hapart]
      exact chars_sequence_map .set fun x hx => ih x hx (hxs x hx)
  | @dict es _ _ hapart ihk ihv =>
    have hes := hn.entries
    rw [reread_entries, dict_eq, Keyed.ofPairs_eq_self hapart, map_ofPair_reread]
    refine chars_sequence_map .dict fun x hx => ?_
    obtain ⟨e, he, rfl⟩ := List.mem_map.mp hx
    exact chars_ofPair (ihk e he (hes e he).1) (ihv e he (hes e he).2)

/-- The text becomes shorter where it is read back. -/
def Shortens (n : Node) : Prop :=
  n.reread.chars.length < n.chars.length

/-- All elements are settled and keep their lengths, or together they become shorter. -/
theorem settled_or_sum_lt {xs : List Node} (hxs : ∀ x ∈ xs, x.Written Scalar.Readable)
    (h : ∀ x ∈ xs, x.Settled ∨ x.Shortens) :
    ((∀ x ∈ xs, x.Settled) ∧ ((xs.map reread).map width).sum = (xs.map width).sum) ∨
      ((xs.map reread).map width).sum < (xs.map width).sum := by
  have hsettled : ∀ x ∈ xs, x.Settled → x.reread.width = x.width := fun x hx hs => by
    rw [width, width, hs.chars_reread (hxs x hx)]
  rw [List.map_map]
  by_cases hall : ∀ x ∈ xs, x.Settled
  · exact Or.inl ⟨hall, congrArg List.sum
      (List.map_congr_left fun x hx => hsettled x hx (hall x hx))⟩
  · obtain ⟨x, hx, hnot⟩ : ∃ x ∈ xs, ¬ x.Settled := by simpa using hall
    have hlt : x.reread.width < x.width := Nat.succ_lt_succ ((h x hx).resolve_left hnot)
    refine Or.inr (List.sum_lt_sum _ _ (fun y hy => ?_) ⟨x, hx, hlt⟩)
    rcases h y hy with hs | hshort
    · exact (hsettled y hy hs).le
    · exact (Nat.succ_lt_succ hshort).le

/-- A tuple or a list becomes shorter where its elements do. -/
theorem shortens_ordered (shape : Shape) {xs : List Node}
    (hlt : ((xs.map reread).map width).sum < (xs.map width).sum) :
    (sequence shape (xs.map reread)).chars.length < (sequence shape xs).chars.length := by
  refine length_sequence_lt ?_ (lastComma_map ..) hlt
  intro hnil
  obtain rfl := List.map_eq_nil_iff.mp hnil
  exact absurd hlt (Nat.lt_irrefl _)

/-- A set becomes shorter by an element, or because it loses one. -/
theorem settled_or_shortens_set {xs : List Node} (hne : xs ≠ [])
    (hxs : ∀ x ∈ xs, x.Written Scalar.Readable) (h : ∀ x ∈ xs, x.Settled ∨ x.Shortens) :
    (sequence .set xs).Settled ∨ (sequence .set xs).Shortens := by
  have hmerge : ((Keyed.distinct same (xs.map reread)).map width).sum < (xs.map width).sum →
      (sequence .set xs).Shortens := fun hlt => by
    rw [Shortens, reread_elements]
    exact length_sequence_lt (Keyed.distinct_ne_nil (by simpa using hne)) rfl hlt
  rcases settled_or_sum_lt hxs h with ⟨hall, hsum⟩ | hlt
  · by_cases hapart : (xs.map reread).Pairwise fun x y => x.same y = false
    · exact Or.inl (.set hall hapart)
    · exact Or.inr (hmerge (hsum ▸ Keyed.sum_distinct_lt width_pos hapart))
  · have hle := Keyed.sum_le_of_sublist width_pos (Keyed.distinct_sublist same (xs.map reread))
    exact Or.inr (hmerge (hle.trans_lt hlt))

/-- A dictionary becomes shorter by a key or a value, or because it loses an entry. -/
theorem settled_or_shortens_dict {es : List (Node × Node)}
    (hes : ∀ e ∈ es, e.1.Written Scalar.Readable ∧ e.2.Written Scalar.Readable)
    (h : ∀ e ∈ es, (e.1.Settled ∨ e.1.Shortens) ∧ (e.2.Settled ∨ e.2.Shortens)) :
    (sequence .dict (es.map ofPair)).Settled ∨ (sequence .dict (es.map ofPair)).Shortens := by
  obtain ⟨fs, hfs⟩ : ∃ fs, fs = es.map fun e => (e.1.reread, e.2.reread) := ⟨_, rfl⟩
  have hmerge : (((Keyed.ofPairs same fs).map ofPair).map width).sum <
      ((es.map ofPair).map width).sum → (sequence .dict (es.map ofPair)).Shortens := fun hlt => by
    have hne : Keyed.ofPairs same fs ≠ [] := Keyed.ofPairs_ne_nil fun hnil => by
      rw [hfs, List.map_eq_nil_iff] at hnil
      rw [hnil] at hlt
      exact absurd hlt (Nat.not_lt_zero _)
    rw [Shortens, reread_entries, dict_eq, ← hfs]
    exact length_sequence_lt (by simpa using hne) rfl hlt
  -- Entries are merged as pairs, and they become shorter by their keys and values.
  have hesum := sum_width_parts es
  have hfsum := sum_width_parts fs
  have hlength : fs.length = es.length := by rw [hfs, List.length_map]
  rw [hfs, parts_reread, ← hfs] at hfsum
  rcases settled_or_sum_lt (forall_mem_parts.mpr hes) (forall_mem_parts.mpr h) with
    ⟨hall, hsum⟩ | hlt
  · by_cases hapart : Keyed.KeysApart same fs
    · have hparts := forall_mem_parts.mp hall
      exact Or.inl (.dict (fun e he => (hparts e he).1) (fun e he => (hparts e he).2)
        (hfs ▸ hapart))
    · have hshort := sum_width_ofPairs_lt hapart
      exact Or.inr (hmerge (by omega))
  · have hle := sum_width_ofPairs_le fs
    exact Or.inr (hmerge (by omega))

/-- **A tree that is not settled is read back with a shorter text.** -/
theorem Written.settled_or_shortens {n : Node} (h : n.Written Scalar.Readable) :
    n.Settled ∨ n.Shortens := by
  induction h with
  | @scalar s _ =>
    by_cases hzero : s = .minusZero
    · exact Or.inr (hzero ▸ Scalar.length_reread_minusZero)
    · exact Or.inl (.scalar hzero)
  | none => exact Or.inl .none
  | complex _ _ => exact Or.inl .complex
  | tuple hxs ih =>
    refine (settled_or_sum_lt hxs ih).imp (fun hall => .tuple hall.1) fun hlt => ?_
    rw [Shortens, reread_tuple]
    exact shortens_ordered .tuple hlt
  | list hxs ih =>
    refine (settled_or_sum_lt hxs ih).imp (fun hall => .list hall.1) fun hlt => ?_
    rw [Shortens, reread_list]
    exact shortens_ordered .list hlt
  | set hne hxs ih => exact settled_or_shortens_set hne hxs ih
  | dict hk hv ihk ihv =>
    exact settled_or_shortens_dict (fun e he => ⟨hk e he, hv e he⟩) fun e he => ⟨ihk e he, ihv e he⟩

/-- **A text stays what it is where it is read back exactly when its tree is settled.** -/
theorem Written.chars_reread_iff {n : Node} (h : n.Written Scalar.Readable) :
    n.reread.chars = n.chars ↔ n.Settled := by
  refine ⟨fun heq => h.settled_or_shortens.resolve_right fun hlt => ?_,
    fun hs => hs.chars_reread h⟩
  rw [Shortens, heq] at hlt
  exact absurd hlt (Nat.lt_irrefl _)

end Node

end Literals
