/-
# Values as keys

`Value.same` is an equivalence on the values that may be keys (`classes_keyable`).  They are the
texts, the numbers other than a NaN, `None`, and the tuples of such values; **numbers are the same
when they have the same amount**, of whatever kinds they are.

It is the coarser of the two notions of sameness: trees that are the same, and whose values may be
keys, have values that are the same (`same_of_same`).
-/
import Literals.Proofs.Folding
import Literals.Proofs.Made

namespace Literals

open Number

namespace Value

/-! ## 1. What sameness says -/

/-- The value may be a key, and no NaN is in it. -/
inductive Keyable : Value → Prop
  | none : Keyable .none
  | str (s : String) : Keyable (.str s)
  | number {v : Value} {a : Amount × Amount} : v.number? = some a → Keyable v
  | tuple {xs : List Value} : (∀ x ∈ xs, Keyable x) → Keyable (.tuple xs)

theorem pairwise_iff {xs ys : List Value} :
    pairwise xs ys = true ↔ List.Forall₂ (fun x y => x.same y = true) xs ys := by
  induction xs generalizing ys with
  | nil => cases ys <;> simp [pairwise]
  | cons x xs ih =>
    cases ys with
    | nil => simp [pairwise]
    | cons y ys => rw [pairwise, Bool.and_eq_true, ih, List.forall₂_cons]

theorem same_none_iff {v : Value} : none.same v = true ↔ v = .none := by
  cases v <;> simp [same, sameNumber, number?]

theorem same_str_iff {s : String} {v : Value} : (str s).same v = true ↔ v = .str s := by
  cases v with
  | str t => simpa [same] using eq_comm
  | _ => simp [same, sameNumber, number?]

theorem same_tuple_iff {xs : List Value} {v : Value} : (tuple xs).same v = true ↔
    ∃ ys, v = .tuple ys ∧ List.Forall₂ (fun x y => x.same y = true) xs ys := by
  cases v <;> simp [same, sameNumber, number?, pairwise_iff]

/-- **A number is the same as the numbers of its amount.** -/
theorem same_number_iff {v w : Value} {a : Amount × Amount} (h : v.number? = some a) :
    v.same w = true ↔ w.number? = some a := by
  have hnumber : v.same w = v.sameNumber w := by
    cases v with
    | float x =>
      cases x with
      | nan i => cases h
      | _ => simp [same]
    | none | str | tuple | list | set | dict => cases h
    | _ => simp [same]
  rw [hnumber, sameNumber, h]
  cases w.number? with
  | none => simp
  | some b => simpa using eq_comm

/-! ## 2. An equivalence -/

theorem same_refl {v : Value} (h : v.Keyable) : v.same v = true := by
  induction h with
  | none => exact same_none_iff.mpr rfl
  | str s => exact same_str_iff.mpr rfl
  | number h => exact (same_number_iff h).mpr h
  | tuple _ ih => exact same_tuple_iff.mpr ⟨_, rfl, List.forall₂_same.mpr ih⟩

theorem same_trans {a b c : Value} (ha : a.Keyable) (hab : a.same b = true)
    (hbc : b.same c = true) : a.same c = true := by
  induction ha generalizing b c with
  | none =>
    obtain rfl := same_none_iff.mp hab
    exact hbc
  | str s =>
    obtain rfl := same_str_iff.mp hab
    exact hbc
  | number h =>
    have hb := (same_number_iff h).mp hab
    exact (same_number_iff h).mpr ((same_number_iff hb).mp hbc)
  | @tuple xs hkeyable ih =>
    obtain ⟨ys, rfl, hxy⟩ := same_tuple_iff.mp hab
    obtain ⟨zs, rfl, hyz⟩ := same_tuple_iff.mp hbc
    refine same_tuple_iff.mpr ⟨zs, rfl, ?_⟩
    clear hab hbc
    induction hxy generalizing zs with
    | nil => exact hyz
    | @cons x y xs ys hx _ hrest =>
      cases hyz with
      | @cons _ z _ zs hz hzs =>
        obtain ⟨ihx, ihxs⟩ := List.forall_mem_cons.mp ih
        exact .cons (ihx hx hz) (hrest (List.forall_mem_cons.mp hkeyable).2 ihxs zs hzs)

theorem same_symm {a b : Value} (ha : a.Keyable) (h : a.same b = true) : b.same a = true := by
  induction ha generalizing b with
  | none =>
    obtain rfl := same_none_iff.mp h
    exact h
  | str s =>
    obtain rfl := same_str_iff.mp h
    exact h
  | number hnumber => exact (same_number_iff ((same_number_iff hnumber).mp h)).mpr hnumber
  | @tuple xs hkeyable ih =>
    obtain ⟨ys, rfl, hxy⟩ := same_tuple_iff.mp h
    refine same_tuple_iff.mpr ⟨xs, rfl, ?_⟩
    clear h
    induction hxy with
    | nil => exact .nil
    | cons hx _ hrest =>
      obtain ⟨ihx, ihxs⟩ := List.forall_mem_cons.mp ih
      exact .cons (ihx hx) (hrest (List.forall_mem_cons.mp hkeyable).2 ihxs)

/-- **Sameness of values is an equivalence on those that may be keys.** -/
theorem classes_keyable : Keyed.Classes Value.same Keyable where
  refl := same_refl
  symm ha _ := same_symm ha
  trans ha _ _ := same_trans ha

end Value

/-! ## 3. Binary numbers -/

namespace Number

theorem Magnitude.units_injective {x y : Magnitude} (h : x.units = y.units) : x = y := by
  have hx := nearest?_units x Nat.one_pos
  rw [h, nearest?_units y Nat.one_pos] at hx
  exact (Option.some.inj hx).symm

namespace Binary64

theorem exactValue_zero (negative : Bool) : exactValue negative .zero = ⟨0, 0⟩ := by
  have hshift : ¬ 1074 ≤ Magnitude.zero.shift := by decide
  have hmantissa : Magnitude.zero.mantissa = 0 := rfl
  rw [exactValue, if_neg hshift]
  simp only [hmantissa, Nat.zero_mul, Exact.make, lowestTerms, if_true]
  cases negative <;> rfl

/-- The exact value tells no more than the number of units. -/
theorem exactValue_congr {s t : Bool} {a b : Magnitude} (h : signedUnits s a = signedUnits t b) :
    exactValue s a = exactValue t b := by
  by_cases ha : a.units = 0
  · have hb : b.units = 0 := by
      cases s <;> cases t <;> simp [signedUnits, ha] at h <;> omega
    rw [Magnitude.units_eq_zero ha, Magnitude.units_eq_zero hb, exactValue_zero, exactValue_zero]
  · have hsame : s = t ∧ a.units = b.units := by
      cases s <;> cases t <;> simp [signedUnits] at h ⊢ <;> omega
    rw [hsame.1, Magnitude.units_injective hsame.2]

end Binary64

end Number

theorem Amount.ofBinary64?_congr {x y : Binary64} (h : x.key = y.key) :
    Amount.ofBinary64? x = Amount.ofBinary64? y := by
  cases x <;> cases y <;> simp [Binary64.key] at h <;> simp [Amount.ofBinary64?, h]
  exact Binary64.exactValue_congr h

theorem Amount.exists_of_not_nan {x : Binary64} (h : x.isNaN = false) :
    ∃ a, Amount.ofBinary64? x = some a := by
  cases x with
  | nan i => cases h
  | _ => exact ⟨_, rfl⟩

/-! ## 4. Values of trees -/

theorem Value.forall_hashable {xs : List Value} (h : (Value.tuple xs).hashable = true) :
    ∀ x ∈ xs, x.hashable = true := by
  replace h : Value.allHashable xs = true := h
  induction xs with
  | nil => exact nofun
  | cons x xs ih =>
    rw [Value.allHashable, Bool.and_eq_true] at h
    exact List.forall_mem_cons.mpr ⟨h.1, ih h.2⟩

/-- Of the collections only tuples may be keys. -/
theorem Shape.collect_hashable {shape : Shape} {values : List Value} {v : Value}
    (h : shape.collect values = .ok v) (hv : v.hashable = true) :
    shape = .tuple ∧ v = .tuple values := by
  cases shape with
  | tuple => exact ⟨rfl, (Except.ok.inj h).symm⟩
  | list => obtain rfl := Except.ok.inj h; cases hv
  | set =>
    rw [collect, Value.setOf] at h
    split at h
    next => cases h
    next => obtain rfl := Except.ok.inj h; cases hv
  | dict =>
    rw [collect, Value.dictOf] at h
    split at h
    next => cases h
    next => obtain rfl := Except.ok.inj h; cases hv
  | bare => cases h

theorem Value.number?_complex {re im : Binary64} {a b : Amount}
    (ha : Amount.ofBinary64? re = some a) (hb : Amount.ofBinary64? im = some b) :
    (Value.complex re im).number? = some (a, b) := by
  rw [Value.number?, ha, hb]

theorem Value.number?_float {x : Binary64} {a : Amount} (ha : Amount.ofBinary64? x = some a) :
    (Value.float x).number? = some (a, .ofInt 0) := by
  rw [Value.number?, ha]
  rfl

theorem Scalar.keyable_value {s : Scalar} (hs : s.NotNaN) : s.value.Keyable := by
  cases s with
  | float x =>
    obtain ⟨a, ha⟩ := Amount.exists_of_not_nan (hs x rfl)
    exact .number (Value.number?_float ha)
  | str t => exact .str t
  | _ => exact .number rfl

/-- Scalars that are the same have the same amount or the same text. -/
theorem Scalar.same_value {s t : Scalar} (hs : s.NotNaN) (h : s.same t = true) :
    s.value.same t.value = true := by
  have hkey := Scalar.same_iff.mp h
  cases s with
  | float x =>
    obtain ⟨a, ha⟩ := Amount.exists_of_not_nan (hs x rfl)
    cases t with
    | float y =>
      have hxy := Amount.ofBinary64?_congr (Scalar.Key.float.inj hkey)
      exact (Value.same_number_iff (Value.number?_float ha)).mpr (Value.number?_float (hxy ▸ ha))
    | _ => cases hkey
  | decimal d =>
    cases t with
    | decimal e =>
      refine (Value.same_number_iff rfl).mpr ?_
      exact congrArg (fun x => some (Amount.exact x, Amount.ofInt 0))
        (Scalar.Key.decimal.inj hkey).symm
    | _ => cases hkey
  | _ =>
    cases t <;> cases hkey
    exact Value.same_refl (Scalar.keyable_value hs)

namespace Node

/-- The values of the elements of a sequence are collected by its shape. -/
theorem fold_sequence_eq_ok {shape : Shape} {xs : List Node} {v : Value}
    (h : (sequence shape xs).fold = .ok v) : ∃ values, shape.collect values = .ok v ∧
      List.Forall₂ (fun x v => x.fold = .ok v) xs values := by
  rw [fold_eq_combine] at h
  cases hxs : foldAll xs with
  | error e =>
    simp only [children, hxs] at h
    cases h
  | ok values =>
    simp only [children, hxs] at h
    exact ⟨values, h, foldAll_eq_ok_iff.mp hxs⟩

theorem fold_tuple_eq_ok {xs : List Node} {v : Value} (h : (sequence .tuple xs).fold = .ok v) :
    ∃ values, v = .tuple values ∧ List.Forall₂ (fun x v => x.fold = .ok v) xs values := by
  obtain ⟨values, hv, hvalues⟩ := fold_sequence_eq_ok h
  exact ⟨values, (Except.ok.inj hv).symm, hvalues⟩

/-- A sequence with a value that may be a key is a tuple of such values. -/
theorem fold_sequence_hashable {shape : Shape} {xs : List Node} {v : Value}
    (h : (sequence shape xs).fold = .ok v) (hv : v.hashable = true) :
    shape = .tuple ∧ ∃ values, v = .tuple values ∧
      List.Forall₂ (fun x v => x.fold = .ok v) xs values := by
  obtain ⟨values, hcollect, hvalues⟩ := fold_sequence_eq_ok h
  obtain ⟨hshape, rfl⟩ := Shape.collect_hashable hcollect hv
  exact ⟨hshape, values, rfl, hvalues⟩

/-- Each of the values is that of one of the trees. -/
theorem exists_of_mem_values {xs : List Node} {values : List Value} {v : Value}
    (h : List.Forall₂ (fun x v => x.fold = .ok v) xs values) (hv : v ∈ values) :
    ∃ x ∈ xs, x.fold = .ok v :=
  exists_of_mem_forall₂ h.flip hv

/-- The value of a tree without a NaN may be a key where it is hashable. -/
theorem keyable_of_fold {n : Node} (hn : n.Plain) {v : Value}
    (h : n.fold = .ok v) (hv : v.hashable = true) : v.Keyable := by
  induction hn generalizing v with
  | @scalar s hs =>
    obtain rfl := Except.ok.inj h
    exact Scalar.keyable_value hs
  | none =>
    obtain rfl := Except.ok.inj h
    exact .none
  | complex hre him =>
    obtain rfl := Except.ok.inj h
    obtain ⟨a, ha⟩ := Amount.exists_of_not_nan hre
    obtain ⟨b, hb⟩ := Amount.exists_of_not_nan him
    exact .number (Value.number?_complex ha hb)
  | tuple _ ih =>
    obtain ⟨-, values, rfl, hvalues⟩ := fold_sequence_hashable h hv
    refine .tuple fun x hx => ?_
    obtain ⟨y, hy, hyx⟩ := exists_of_mem_values hvalues hx
    exact ih y hy hyx (Value.forall_hashable hv x hx)
  | keyValue hloose => exact hloose.elim
  | bare hloose => exact hloose.elim
  | list | set | dict => exact nomatch (fold_sequence_hashable h hv).1

theorem forall₂_same_values {xs ys : List Node} {values values' : List Value}
    (hxy : List.Forall₂ (fun x y => x.same y = true) xs ys)
    (hvalues : List.Forall₂ (fun x v => x.fold = .ok v) xs values)
    (hvalues' : List.Forall₂ (fun y w => y.fold = .ok w) ys values')
    (hkeys : ∀ v ∈ values, v.hashable = true)
    (h : ∀ x ∈ xs, ∀ {b v w}, x.fold = .ok v → b.fold = .ok w → v.hashable = true →
      x.same b = true → v.same w = true) :
    List.Forall₂ (fun v w => v.same w = true) values values' := by
  induction hxy generalizing values values' with
  | nil =>
    cases hvalues
    cases hvalues'
    exact .nil
  | cons hxy _ ih =>
    cases hvalues with
    | cons hx hxs =>
      cases hvalues' with
      | cons hy hys =>
        obtain ⟨hkey, hkeys⟩ := List.forall_mem_cons.mp hkeys
        obtain ⟨hhead, htail⟩ := List.forall_mem_cons.mp h
        exact .cons (hhead hx hy hkey hxy) (ih hxs hys hkeys htail)

/-- **Trees that are the same have values that are the same**, where these may be keys. -/
theorem same_of_same {a b : Node} (ha : a.Plain) {v w : Value}
    (hv : a.fold = .ok v) (hw : b.fold = .ok w) (hkey : v.hashable = true)
    (h : a.same b = true) : v.same w = true := by
  induction ha generalizing b v w with
  | @scalar s hs =>
    obtain ⟨t, rfl, hst⟩ := same_scalar_iff.mp h
    obtain rfl := Except.ok.inj hv
    obtain rfl := Except.ok.inj hw
    exact Scalar.same_value hs hst
  | none =>
    obtain rfl := same_none_iff.mp h
    obtain rfl := Except.ok.inj hv
    obtain rfl := Except.ok.inj hw
    exact Value.same_none_iff.mpr rfl
  | complex hre him =>
    obtain ⟨re', im', rfl, hkre, hkim⟩ := same_complex_iff.mp h
    obtain rfl := Except.ok.inj hv
    obtain rfl := Except.ok.inj hw
    obtain ⟨a, ha⟩ := Amount.exists_of_not_nan hre
    obtain ⟨b, hb⟩ := Amount.exists_of_not_nan him
    refine (Value.same_number_iff (Value.number?_complex ha hb)).mpr ?_
    exact Value.number?_complex (Amount.ofBinary64?_congr hkre ▸ ha)
      (Amount.ofBinary64?_congr hkim ▸ hb)
  | tuple _ ih =>
    obtain ⟨ys, rfl, hxy⟩ := same_sequence_iff.mp h
    obtain ⟨-, values, rfl, hvalues⟩ := fold_sequence_hashable hv hkey
    obtain ⟨values', rfl, hvalues'⟩ := fold_tuple_eq_ok hw
    refine Value.same_tuple_iff.mpr ⟨values', rfl, ?_⟩
    exact forall₂_same_values hxy hvalues hvalues' (Value.forall_hashable hkey) ih
  | keyValue hloose => exact hloose.elim
  | bare hloose => exact hloose.elim
  | list | set | dict => exact nomatch (fold_sequence_hashable hv hkey).1

end Node

end Literals
