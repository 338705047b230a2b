/-
# Reading what was printed

The text of a tree is an item of the grammar, and `Node.reread` is the tree that it is an item for.
Printing loses one thing only: **a decimal in the range of 64-bit integers is printed as the integer
that it is**, and read as one.  All other scalars come back as they are, and so do the collections,
whose elements and keys stay apart.

`Node.Built` says how a tree is made from the scalars that may occur in it.  It fits both what can
be written by hand (`Scalar.Encodable`) and what is read (`Scalar.Readable`).  A text is an item even
where elements or keys repeat in it, so `Node.Written` asks nothing about that.
-/
import Literals.Proofs.DecimalValue
import Literals.Proofs.Equality
import Literals.Proofs.Layout

namespace Literals

open Number Grammar Reader

/-! ## 1. Scalars -/

theorem InInt32.toInt64 {n : Int} (h : InInt32 n) : InInt64 n := by
  unfold InInt32 at h
  unfold InInt64
  omega

namespace Scalar

theorem ofInt_of_int32 {n : Int} (h : InInt32 n) : ofInt n = .int n :=
  if_pos h

theorem ofInt_of_int64 {n : Int} (h : InInt64 n) (hn : ¬ InInt32 n) : ofInt n = .long n := by
  rw [ofInt, if_neg hn, if_pos h]

theorem ofInt_of_wide {n : Int} (h : ¬ InInt64 n) : ofInt n = .decimal (.ofInt n) := by
  rw [ofInt, if_neg fun h32 => h h32.toInt64, if_neg h]

/-- The scalar that is read where this one was printed. -/
def reread : Scalar → Scalar
  | .decimal d => if InInt64 d.integer then .ofInt d.integer else .decimal d
  | s => s

theorem reread_of_narrow {d : Decimal} (h : InInt64 d.integer) :
    (decimal d).reread = .ofInt d.integer :=
  if_pos h

theorem reread_of_wide {d : Decimal} (h : ¬ InInt64 d.integer) :
    (decimal d).reread = .decimal d :=
  if_neg h

/-- The scalars that the reader may return. -/
def Readable : Scalar → Prop
  | .int n => InInt32 n
  | .long n => InInt64 n ∧ ¬ InInt32 n
  | .float x => x.isNaN = false
  | .decimal d => d.exponent = 0
  | .bool _ => True
  | .str _ => True

/-- The scalars that come back as they were printed: a decimal must not fit into 64 bits. -/
def Encodable (s : Scalar) : Prop :=
  s.Readable ∧ ∀ d, s = .decimal d → ¬ d.Narrow

theorem Encodable.reread_eq {s : Scalar} (h : s.Encodable) : s.reread = s := by
  cases s with
  | decimal d =>
    have hwide := h.2 d rfl
    rw [Decimal.narrow_iff h.1] at hwide
    exact if_neg hwide
  | _ => rfl

/-- **No decimal in the range of 64-bit integers is left.** -/
theorem wide_of_reread_eq {s : Scalar} {d : Decimal} (h : s.reread = .decimal d)
    (hs : s.Readable) : ¬ d.Narrow := by
  cases s with
  | decimal e =>
    by_cases hnarrow : InInt64 e.integer
    · rw [reread_of_narrow hnarrow] at h
      by_cases h32 : InInt32 e.integer
      · rw [ofInt_of_int32 h32] at h
        cases h
      · rw [ofInt_of_int64 hnarrow h32] at h
        cases h
    · rw [reread_of_wide hnarrow] at h
      obtain rfl := Scalar.decimal.inj h
      rwa [Decimal.narrow_iff hs]
  | _ => cases h

end Scalar

namespace Grammar

theorem digits_digits (n : Nat) : Digits (digits n) :=
  ⟨digits_ne_nil n, fun _ => isDigit_of_mem_digits⟩

/-- The text of an integer, with its sign taken off. -/
theorem intText_eq (n : Int) : intText n = minusText (decide (n < 0)) ++ digits n.natAbs := by
  unfold intText minusText
  split
  next h => simp [h]
  next h => simp [h]

/-- An integer of 64 bits has few digits. -/
theorem length_digits_le {n : Nat} (h : n ≤ 2 ^ 63) : (digits n).length ≤ longestInteger := by
  have hfew : (digits n).length ≤ 19 := by
    rw [length_digits_le_iff (by decide)]
    omega
  exact hfew.trans (by decide)

/-- **An integer of 64 bits is printed as a literal for it.** -/
theorem item_intText {n : Int} (h : InInt64 n) : Item (intText n) (.scalar (.ofInt n)) := by
  have hvalue : signedValue (decide (n < 0)) n.natAbs = n := Decimal.integer_ofInt n
  have hlen := length_digits_le (n := n.natAbs) (by unfold InInt64 at h; omega)
  have hitem : Item (minusText (decide (n < 0)) ++ digits n.natAbs) _ :=
    .integer (digits_digits n.natAbs)
  rwa [integerScalar, if_pos hlen, ofDigits_digits, hvalue, ← intText_eq] at hitem

/-- A decimal with exponent zero is written as its digits. -/
theorem text_of_exponent {d : Decimal} (h : d.exponent = 0) :
    d.text = minusText d.negative ++ digits d.coefficient := by
  have hpos := length_digits_pos d.coefficient
  unfold Decimal.text
  dsimp only
  rw [if_pos (by omega), if_neg (by omega), if_pos h]
  rfl

/-- Whatever the kind of an integer, its text is the same. -/
theorem chars_ofInt (n : Int) : (Scalar.ofInt n).chars = intText n := by
  by_cases h64 : InInt64 n
  · by_cases h32 : InInt32 n
    · rw [Scalar.ofInt_of_int32 h32, Scalar.chars]
    · rw [Scalar.ofInt_of_int64 h64 h32, Scalar.chars]
  · rw [Scalar.ofInt_of_wide h64, Scalar.chars, text_of_exponent rfl, intText_eq]
    rfl

/-- **A decimal with exponent zero is printed as a literal**, for the integer that it is where that
has 64 bits, and else for itself. -/
theorem item_decimal {d : Decimal} (h : d.exponent = 0) :
    Item d.text (.scalar (Scalar.decimal d).reread) := by
  have hitem : Item (minusText d.negative ++ digits d.coefficient) _ :=
    .integer (digits_digits d.coefficient)
  rw [← text_of_exponent h, integerScalar, ofDigits_digits] at hitem
  have hinteger : signedValue d.negative d.coefficient = d.integer := rfl
  rw [hinteger] at hitem
  by_cases hnarrow : InInt64 d.integer
  · have hlen : (digits d.coefficient).length ≤ longestInteger := by
      refine length_digits_le ?_
      unfold InInt64 Decimal.integer at hnarrow
      split at hnarrow <;> omega
    rwa [if_pos hlen, ← Scalar.reread_of_narrow hnarrow] at hitem
  · rw [Scalar.reread_of_wide hnarrow]
    split at hitem
    next => rwa [Scalar.ofInt_of_wide hnarrow, Decimal.ofInt_integer h hnarrow] at hitem
    next => rwa [← h] at hitem

/-- What is escaped is the body of a string. -/
theorem body_flatMap_escape (s : List Char) : Body '\'' (s.flatMap Text.Quoted.escape) := by
  induction s with
  | nil => exact .nil
  | cons c s ih =>
    rw [List.flatMap_cons, Text.Quoted.escape]
    split
    next => exact .escaped ih
    next hnone =>
      refine .plain ?_ ?_ ih
      · rintro rfl
        cases hnone
      · rintro rfl
        cases hnone

theorem item_string (s : String) : Item (Text.Quoted.encode s.toList) (.scalar (.str s)) := by
  have hitem := Item.string (Or.inl rfl) (body_flatMap_escape s.toList)
  rwa [Text.Quoted.unescape_flatMap_escape, String.ofList_toList] at hitem

/-- **Every scalar that the reader may return is printed as a literal.** -/
theorem item_scalar {s : Scalar} (h : s.Readable) : Item s.chars (.scalar s.reread) := by
  cases s with
  | int n =>
    have h32 : InInt32 n := h
    have hitem := item_intText h32.toInt64
    rwa [Scalar.ofInt_of_int32 h32] at hitem
  | long n =>
    have hitem := item_intText h.1
    rwa [Scalar.ofInt_of_int64 h.1 h.2] at hitem
  | float x => exact item_float h
  | decimal d => exact item_decimal h
  | bool b => cases b <;> constructor
  | str s => exact item_string s

end Grammar

/-! ## 2. Trees -/

namespace Node

/-- The trees that are made by the constructors of the language from certain scalars: no set is
empty, and pairs occur as entries of dictionaries only. -/
inductive Built (ok : Scalar → Prop) : Node → Prop
  | scalar {s : Scalar} : ok s → Built ok (.scalar s)
  | none : Built ok .none
  | complex {re im : Binary64} : re.isNaN = false → im.isNaN = false → Built ok (.complex re im)
  | tuple {xs : List Node} : (∀ x ∈ xs, Built ok x) → Built ok (.tuple xs)
  | list {xs : List Node} : (∀ x ∈ xs, Built ok x) → Built ok (.list xs)
  | set {xs : List Node} : xs ≠ [] → (∀ x ∈ xs, Built ok x) → Built ok (.set xs)
  | dict {es : List (Node × Node)} : (∀ e ∈ es, Built ok e.1) → (∀ e ∈ es, Built ok e.2) →
      Built ok (.dict es)

/-- A pair of trees as a node. -/
def ofPair (e : Node × Node) : Node :=
  .keyValue e.1 e.2

/-- The trees whose texts are literals: like those that are built, but elements and keys may
repeat. -/
inductive Written (ok : Scalar → Prop) : Node → Prop
  | scalar {s : Scalar} : ok s → Written ok (.scalar s)
  | none : Written ok .none
  | complex {re im : Binary64} : re.isNaN = false → im.isNaN = false → Written ok (.complex re im)
  | tuple {xs : List Node} : (∀ x ∈ xs, Written ok x) → Written ok (.tuple xs)
  | list {xs : List Node} : (∀ x ∈ xs, Written ok x) → Written ok (.list xs)
  | set {xs : List Node} : xs ≠ [] → (∀ x ∈ xs, Written ok x) → Written ok (.sequence .set xs)
  | dict {es : List (Node × Node)} : (∀ e ∈ es, Written ok e.1) → (∀ e ∈ es, Written ok e.2) →
      Written ok (.sequence .dict (es.map ofPair))

/-- Merging leaves what can be written. -/
theorem Built.written {ok : Scalar → Prop} {n : Node} (h : n.Built ok) : n.Written ok := by
  induction h with
  | scalar hs => exact .scalar hs
  | none => exact .none
  | complex hre him => exact .complex hre him
  | tuple _ ih => exact .tuple ih
  | list _ ih => exact .list ih
  | set hne _ ih =>
    exact .set (Keyed.distinct_ne_nil hne) fun x hx => ih x (Keyed.mem_of_mem_distinct hx)
  | @dict es _ _ ihk ihv =>
    have hentries : ∀ e ∈ Keyed.ofPairs same es, e.1.Written ok ∧ e.2.Written ok :=
      Keyed.forall_ofPairs fun e he => ⟨ihk e he, ihv e he⟩
    exact .dict (fun e he => (hentries e he).1) fun e he => (hentries e he).2

mutual

/-- The tree that is read where this one was printed. -/
def reread : Node → Node
  | .scalar s => .scalar s.reread
  | .none => .none
  | .complex re im => .complex re im
  | .keyValue k v => .keyValue (reread k) (reread v)
  | .sequence .set xs => .set (rereadAll xs)
  | .sequence .dict xs => .dict (rereadEntries xs)
  | .sequence shape xs => .sequence shape (rereadAll xs)

/-- The elements that are read where these were printed. -/
def rereadAll : List Node → List Node
  | [] => []
  | x :: xs => reread x :: rereadAll xs

/-- The entries that are read where these were printed. -/
def rereadEntries : List Node → List (Node × Node)
  | .keyValue k v :: xs => (reread k, reread v) :: rereadEntries xs
  | _ :: xs => rereadEntries xs
  | [] => []

end

theorem rereadAll_eq_map (xs : List Node) : rereadAll xs = xs.map reread := by
  induction xs with
  | nil => rfl
  | cons x xs ih => rw [rereadAll, ih, List.map_cons]

theorem rereadEntries_map (es : List (Node × Node)) :
    rereadEntries (es.map ofPair) = es.map fun e => (e.1.reread, e.2.reread) := by
  induction es with
  | nil => rfl
  | cons e es ih => rw [List.map_cons, ofPair, rereadEntries, ih, List.map_cons]

theorem dict_eq (es : List (Node × Node)) :
    dict es = .sequence .dict ((Keyed.ofPairs same es).map ofPair) :=
  rfl

theorem reread_tuple (xs : List Node) : (tuple xs).reread = .tuple (xs.map reread) := by
  rw [← rereadAll_eq_map]
  rfl

theorem reread_list (xs : List Node) : (list xs).reread = .list (xs.map reread) := by
  rw [← rereadAll_eq_map]
  rfl

theorem reread_elements (xs : List Node) :
    (sequence .set xs).reread = .set (xs.map reread) := by
  rw [← rereadAll_eq_map]
  rfl

theorem reread_set (xs : List Node) :
    (set xs).reread = .set ((Keyed.distinct same xs).map reread) :=
  reread_elements _

theorem reread_entries (es : List (Node × Node)) :
    (sequence .dict (es.map ofPair)).reread =
      .dict (es.map fun e => (e.1.reread, e.2.reread)) := by
  rw [← rereadEntries_map]
  rfl

theorem reread_dict (es : List (Node × Node)) :
    (dict es).reread =
      .dict ((Keyed.ofPairs same es).map fun e => (e.1.reread, e.2.reread)) :=
  reread_entries _

/-- The last comma depends on how many elements there are. -/
theorem lastComma_map (shape : Shape) (f : Node → Node) (xs : List Node) :
    lastComma shape (xs.map f) = lastComma shape xs := by
  cases xs with
  | nil => rfl
  | cons x xs => cases xs <;> cases shape <;> rfl

/-- **A tree of scalars that come back comes back itself**, for its elements and keys are apart
already. -/
theorem reread_eq {ok : Scalar → Prop} {n : Node} (h : n.Built ok)
    (hs : ∀ s, n.Holds s → s.reread = s) : n.reread = n := by
  have hmap : ∀ {xs : List Node}, (∀ x ∈ xs, x.reread = x) → xs.map reread = xs :=
    fun hxs => (List.map_congr_left hxs).trans (List.map_id _)
  induction h with
  | @scalar s _ => rw [reread, hs s .scalar]
  | none => rfl
  | complex _ _ => rfl
  | tuple _ ih => rw [reread_tuple, hmap fun x hx => ih x hx fun s h => hs s (.element hx h)]
  | list _ ih => rw [reread_list, hmap fun x hx => ih x hx fun s h => hs s (.element hx h)]
  | @set xs _ _ ih =>
    have hdistinct : ∀ x ∈ Keyed.distinct same xs, x.reread = x := fun x hx =>
      ih x (Keyed.mem_of_mem_distinct hx) fun s h => hs s (.element hx h)
    rw [reread_set, hmap hdistinct, set, Keyed.distinct_distinct, set]
  | @dict es _ _ ihk ihv =>
    have hentries : ∀ e ∈ Keyed.ofPairs same es, (e.1.reread, e.2.reread) = e := fun e he => by
      obtain ⟨hk, hv⟩ := Keyed.forall_ofPairs
        (P := fun k => (∀ s, k.Holds s → s.reread = s) → k.reread = k)
        (Q := fun v => (∀ s, v.Holds s → s.reread = s) → v.reread = v)
        (fun p hp => ⟨ihk p hp, ihv p hp⟩) e he
      have hmem := List.mem_map_of_mem (f := ofPair) he
      rw [hk fun s h => hs s (.element hmem (.key h)),
        hv fun s h => hs s (.element hmem (.value h))]
    rw [reread_dict, List.map_congr_left hentries, List.map_id', dict_eq,
      Keyed.ofPairs_eq_self (Keyed.keysApart_ofPairs es), dict_eq]

theorem Proper.set {xs : List Node} (h : ∀ x ∈ xs, x.Proper) : (Node.set xs).Proper :=
  .sequence (fun x hx => h x (Keyed.mem_of_mem_distinct hx)) fun _ => Keyed.pairwise_distinct _ _

theorem Proper.dict {es : List (Node × Node)} (h : ∀ e ∈ es, e.1.Proper ∧ e.2.Proper) :
    (Node.dict es).Proper := by
  have hentries : ∀ e ∈ Keyed.ofPairs same es, e.1.Proper ∧ e.2.Proper := Keyed.forall_ofPairs h
  refine .sequence (fun x hx => ?_) fun _ => ?_
  · obtain ⟨e, he, rfl⟩ := List.mem_map.mp hx
    exact .keyValue (hentries e he).1 (hentries e he).2
  · rw [List.pairwise_map]
    refine (Keyed.keysApart_ofPairs es).imp fun {e f} hkey => ?_
    change (e.1.same f.1 && e.2.same f.2) = false
    rw [hkey, Bool.false_and]

/-- The elements and keys of a tree that is built are apart. -/
theorem Built.proper {ok : Scalar → Prop} {n : Node} (h : n.Built ok) : n.Proper := by
  induction h with
  | scalar _ => exact .scalar _
  | none => exact .none
  | complex _ _ => exact .complex _ _
  | tuple _ ih => exact .sequence ih nofun
  | list _ ih => exact .sequence ih nofun
  | set _ _ ih => exact .set ih
  | dict _ _ ihk ihv => exact .dict fun e he => ⟨ihk e he, ihv e he⟩

/-- What is reread as an entry was printed as an element. -/
theorem exists_of_mem_rereadEntries {xs : List Node} {e : Node × Node}
    (h : e ∈ rereadEntries xs) : ∃ x ∈ xs, x.reread = ofPair e := by
  induction xs with
  | nil => cases h
  | cons x xs ih =>
    have hrest : e ∈ rereadEntries xs → ∃ y ∈ x :: xs, y.reread = ofPair e := fun h => by
      obtain ⟨y, hy, heq⟩ := ih h
      exact ⟨y, List.mem_cons_of_mem _ hy, heq⟩
    cases x with
    | keyValue k v =>
      rw [rereadEntries] at h
      rcases List.mem_cons.mp h with rfl | h
      · exact ⟨_, List.mem_cons_self, rfl⟩
      · exact hrest h
    | scalar _ => exact hrest h
    | none => exact hrest h
    | complex _ _ => exact hrest h
    | sequence _ _ => exact hrest h

/-- A scalar of a reread collection is one of a reread element. -/
theorem exists_holds_of_sequence {shape : Shape} {xs : List Node} {s : Scalar}
    (h : (sequence shape xs).reread.Holds s) : ∃ x ∈ xs, x.reread.Holds s := by
  have helement : ∀ {t : Shape} {ys : List Node}, (sequence t ys).Holds s →
      ∃ y ∈ ys, y.Holds s := by
    rintro t ys ⟨⟩
    exact ⟨_, ‹_›, ‹_›⟩
  have hmap : (∃ y ∈ rereadAll xs, y.Holds s) → ∃ x ∈ xs, x.reread.Holds s := by
    rintro ⟨y, hy, hs⟩
    rw [rereadAll_eq_map] at hy
    obtain ⟨x, hx, rfl⟩ := List.mem_map.mp hy
    exact ⟨x, hx, hs⟩
  cases shape with
  | set =>
    obtain ⟨y, hy, hs⟩ := helement (t := .set) h
    exact hmap ⟨y, Keyed.mem_of_mem_distinct hy, hs⟩
  | dict =>
    obtain ⟨y, hy, hs⟩ := helement (t := .dict) h
    obtain ⟨e, he, rfl⟩ := List.mem_map.mp hy
    -- Merging moves values to other keys, so keys and values are traced apart.
    have hentries : ∀ e ∈ Keyed.ofPairs same (rereadEntries xs),
        (e.1.Holds s → ∃ x ∈ xs, x.reread.Holds s) ∧
          (e.2.Holds s → ∃ x ∈ xs, x.reread.Holds s) :=
      Keyed.forall_ofPairs (P := fun k : Node => k.Holds s → ∃ x ∈ xs, x.reread.Holds s)
        (Q := fun v : Node => v.Holds s → ∃ x ∈ xs, x.reread.Holds s) fun p hp => by
          obtain ⟨x, hx, heq⟩ := exists_of_mem_rereadEntries hp
          exact ⟨fun hk => ⟨x, hx, heq ▸ .key hk⟩, fun hv => ⟨x, hx, heq ▸ .value hv⟩⟩
    cases hs with
    | key hk => exact (hentries e he).1 hk
    | value hv => exact (hentries e he).2 hv
  | tuple => exact hmap (helement (t := .tuple) h)
  | list => exact hmap (helement (t := .list) h)
  | bare => exact hmap (helement (t := .bare) h)

/-- **A reread tree holds no scalar but what is reread of those that were printed.** -/
theorem exists_holds_of_reread {n : Node} {s : Scalar} (h : n.reread.Holds s) :
    ∃ r, n.Holds r ∧ s = r.reread := by
  induction n using induct with
  | scalar r =>
    obtain ⟨⟩ := h
    exact ⟨r, .scalar, rfl⟩
  | none => cases h
  | complex _ _ => cases h
  | keyValue k v ihk ihv =>
    cases h with
    | key h =>
      obtain ⟨r, hr, rfl⟩ := ihk h
      exact ⟨r, .key hr, rfl⟩
    | value h =>
      obtain ⟨r, hr, rfl⟩ := ihv h
      exact ⟨r, .value hr, rfl⟩
  | sequence shape xs ih =>
    obtain ⟨x, hx, h⟩ := exists_holds_of_sequence h
    obtain ⟨r, hr, rfl⟩ := ih x hx h
    exact ⟨r, .element hx hr, rfl⟩

end Node

namespace Grammar

open Node

/-! ## 3. The text of a tree -/

/-- The texts of some trees with commas between them. -/
theorem exprs_joined {xs : List Node} (hne : xs ≠ [])
    (h : ∀ x ∈ xs, Item x.chars x.reread) : Exprs (joined xs) (xs.map reread) := by
  induction xs with
  | nil => exact absurd rfl hne
  | cons x xs ih =>
    obtain ⟨hx, hxs⟩ := List.forall_mem_cons.mp h
    cases xs with
    | nil =>
      simpa [joined, continued] using Exprs.one hx.toExpr
    | cons y ys =>
      exact .cons hx.toExpr (ih (List.cons_ne_nil _ _) hxs)

theorem entries_joined {es : List (Node × Node)} (hne : es ≠ [])
    (h : ∀ e ∈ es, Item e.1.chars e.1.reread ∧ Item e.2.chars e.2.reread) :
    Entries (joined (es.map ofPair)) (es.map fun e => (e.1.reread, e.2.reread)) := by
  have hblank : Blank [' '] := fun c hc => by
    obtain rfl := List.mem_singleton.mp hc
    rfl
  induction es with
  | nil => exact absurd rfl hne
  | cons e es ih =>
    obtain ⟨⟨hk, hv⟩, hes⟩ := List.forall_mem_cons.mp h
    have hvalue := hv.toExpr.blank_append hblank
    cases es with
    | nil =>
      simpa [joined, continued, chars, ofPair] using Entries.one hk.toExpr hvalue
    | cons f fs =>
      simpa [joined, continued, chars, ofPair] using
        Entries.cons hk.toExpr hvalue (ih (List.cons_ne_nil _ _) hes)

/-- **The text of a tree is an item of the grammar**, for the tree that is reread. -/
theorem item_of_written {n : Node} (h : n.Written Scalar.Readable) : Item n.chars n.reread := by
  induction h with
  | scalar hs => exact item_scalar hs
  | none => exact .noneLiteral
  | complex hre him => exact item_complex hre him
  | @tuple xs _ ih =>
    rw [reread_tuple]
    change Item ('(' :: (joined xs ++ lastComma .tuple xs ++ [')'])) _
    cases xs with
    | nil => exact .emptyTuple (u := []) nofun
    | cons x xs =>
      obtain ⟨hx, hxs⟩ := List.forall_mem_cons.mp ih
      cases xs with
      | nil =>
        simpa [joined, continued, lastComma] using Item.singleton (u := []) hx.toExpr nofun
      | cons y ys =>
        have hrest := exprs_joined (List.cons_ne_nil _ _) hxs
        simpa [joined, continued, lastComma] using Item.tuple hx.toExpr hrest
  | @list xs _ ih =>
    rw [reread_list]
    change Item ('[' :: (joined xs ++ [] ++ [']'])) _
    cases xs with
    | nil => exact .emptyList (u := []) nofun
    | cons x xs =>
      have hxs := exprs_joined (List.cons_ne_nil _ _) ih
      simpa using Item.list hxs
  | @set xs hne _ ih =>
    rw [reread_elements]
    change Item ('{' :: (joined xs ++ [] ++ ['}'])) _
    simpa using Item.set (exprs_joined hne ih)
  | @dict es _ _ ihk ihv =>
    rw [reread_entries]
    change Item ('{' :: (joined (es.map ofPair) ++ [] ++ ['}'])) _
    by_cases hnil : es = []
    · rw [hnil]
      exact .emptyDict (u := []) nofun
    · simpa using Item.dict (entries_joined hnil fun e he => ⟨ihk e he, ihv e he⟩)

theorem item_chars {n : Node} (h : n.Built Scalar.Readable) : Item n.chars n.reread :=
  item_of_written h.written

end Grammar

end Literals
