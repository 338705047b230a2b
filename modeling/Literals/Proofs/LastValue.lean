/-
# Which value a dictionary keeps

The pairs of a dictionary are merged twice on the way from the text to the value: the tree merges
keys that are the same as trees, and its value merges keys that are the same as values.  Each time
the last value wins.  **The keys, and their places, are those of the pairs as written.  The values
are so too, unless a key returns**: where `1` is written before `True` and again after it, the tree
moves the last value to the first place, and there the value of `True` replaces it.
-/
import Literals.Proofs.RoundTrip
import Literals.Proofs.SameValues
import Literals.Reader.Bytes

namespace Literals

open Grammar Reader

namespace Node

/-! ## 1. Keys -/

/-- The value of a tree that has one. -/
def value (n : Node) : Value :=
  match n.fold with
  | .ok v => v
  | .error _ => .none

theorem value_of_fold {n : Node} {v : Value} (h : n.fold = .ok v) : n.value = v := by
  rw [value, h]

/-- Whether the values of two trees are the same. -/
def sameValue (a b : Node) : Bool :=
  a.value.same b.value

/-- The tree has a value that may be a key. -/
structure Key (n : Node) : Prop where
  built : n.Built Scalar.Readable
  fold : n.fold = .ok n.value
  hashable : n.value.hashable = true

theorem Key.keyable {n : Node} (h : n.Key) : n.value.Keyable :=
  keyable_of_fold h.built.plain h.fold h.hashable

/-- Equality of trees divides the keys into classes, and so does equality of their values. -/
theorem classes_same : Keyed.Classes Node.same Key where
  refl _ := same_refl _
  symm ha _ := same_symm ha.built.proper
  trans _ _ _ := same_trans

theorem classes_sameValue : Keyed.Classes sameValue Key where
  refl ha := Value.classes_keyable.refl ha.keyable
  symm ha hb := Value.classes_keyable.symm ha.keyable hb.keyable
  trans ha hb hc := Value.classes_keyable.trans ha.keyable hb.keyable hc.keyable

/-- Keys that are merged as trees are merged as values, but not the other way round. -/
theorem sameValue_of_same {a b : Node} (ha : a.Key) (hb : b.Key) (h : a.same b = true) :
    sameValue a b = true :=
  same_of_same ha.built.plain ha.fold hb.fold ha.hashable h

/-! ## 2. Dictionaries -/

/-- The entries of a dictionary, as values. -/
def entryValues (es : List (Node × Node)) : List (Value × Value) :=
  es.map (Prod.map value value)

theorem foldAll_entries {es : List (Node × Node)}
    (h : ∀ e ∈ es, e.1.fold = .ok e.1.value ∧ e.2.fold = .ok e.2.value) :
    foldAll (es.map ofPair) = .ok (es.map fun e => .tuple [e.1.value, e.2.value]) := by
  refine foldAll_eq_ok_iff.mpr ?_
  rw [List.forall₂_map_left_iff, List.forall₂_map_right_iff, List.forall₂_same]
  intro e he
  obtain ⟨hk, hv⟩ := h e he
  rw [ofPair, Node.fold, hk]
  simp only [hv]

theorem pairsOf_tuples (es : List (Node × Node)) :
    Value.pairsOf (es.map fun e => .tuple [e.1.value, e.2.value]) = entryValues es := by
  rw [Value.pairsOf, List.filterMap_map, entryValues, ← List.filterMap_eq_map]
  rfl

theorem map_fst_entryValues (es : List (Node × Node)) :
    (entryValues es).map Prod.fst = (es.map Prod.fst).map value := by
  rw [entryValues, List.map_map, List.map_map]
  rfl

/-- To look for a value among the values is to look for its tree among the entries. -/
theorem get?_entryValues (k : Node) (es : List (Node × Node)) :
    Keyed.get? Value.same k.value (entryValues es) = (Keyed.get? sameValue k es).map value :=
  Keyed.get?_map value value k es

/-- The parts of a literal with values have their values by `value`. -/
theorem entryValues_of_fold {es : List (Node × Node)} {ps : List (Value × Value)}
    (h : List.Forall₂ (fun e p => e.1.fold = .ok p.1 ∧ e.2.fold = .ok p.2) es ps) :
    ps = entryValues es ∧ ∀ e ∈ es, e.1.fold = .ok e.1.value ∧ e.2.fold = .ok e.2.value := by
  induction h with
  | nil => exact ⟨rfl, List.forall_mem_nil _⟩
  | @cons e p es ps hep _ ih =>
    obtain ⟨hk, hv⟩ := hep
    have hkey := value_of_fold hk
    have hvalue := value_of_fold hv
    refine ⟨?_, List.forall_mem_cons.mpr ⟨⟨hkey.symm ▸ hk, hvalue.symm ▸ hv⟩, ih.2⟩⟩
    rw [ih.1, entryValues, entryValues, List.map_cons, Prod.map, hkey, hvalue]

/-- **The value of a dictionary merges the values of its entries**, which are merged already as
trees. -/
theorem fold_dict {es : List (Node × Node)} (hkeys : ∀ e ∈ es, e.1.Key)
    (hvalues : ∀ e ∈ es, e.2.fold = .ok e.2.value) :
    (Node.dict es).fold =
      .ok (.dict (Keyed.ofPairs Value.same (entryValues (Keyed.ofPairs Node.same es)))) := by
  have hentries : ∀ e ∈ Keyed.ofPairs Node.same es, e.1.Key ∧ e.2.fold = .ok e.2.value :=
    Keyed.forall_ofPairs (P := Key) (Q := fun v => v.fold = .ok v.value)
      fun e he => ⟨hkeys e he, hvalues e he⟩
  have hchildren : foldAll (Node.dict es).children = _ :=
    foldAll_entries fun e he => ⟨(hentries e he).1.fold, (hentries e he).2⟩
  have hhashable : ∀ p ∈ entryValues (Keyed.ofPairs Node.same es), p.1.hashable = true :=
    List.forall_mem_map.mpr fun e he => (hentries e he).1.hashable
  have hfind : (entryValues (Keyed.ofPairs Node.same es)).find? (fun p => !p.1.hashable) =
      Option.none :=
    List.find?_eq_none.mpr fun p hp => by simp [hhashable p hp]
  rw [fold_of_foldAll hchildren]
  change Value.dictOf (Value.pairsOf _) = _
  rw [pairsOf_tuples, Value.dictOf, hfind]

end Node

namespace Grammar

/-! ## 3. Literals of dictionaries -/

/-- The text is the literal of a dictionary with the given entries, as they are written. -/
inductive DictText : List Char → List (Node × Node) → Prop
  | empty {u w v : List Char} : Blank u → Blank w → Blank v →
      DictText (u ++ (('{' :: (w ++ ['}'])) ++ v)) []
  | entries {u w v : List Char} {es : List (Node × Node)} : Blank u → Entries w es → Blank v →
      DictText (u ++ (('{' :: (w ++ ['}'])) ++ v)) es

theorem DictText.expr {text : List Char} {es : List (Node × Node)} (h : DictText text es) :
    Expr text (.dict es) := by
  cases h with
  | empty hu hw hv => exact .blanks hu (.emptyDict hw) hv
  | entries hu hes hv => exact .blanks hu (.dict hes) hv

theorem DictText.built {text : List Char} {es : List (Node × Node)} (h : DictText text es) :
    ∀ e ∈ es, e.1.Built Scalar.Readable := by
  cases h with
  | empty => exact List.forall_mem_nil _
  | entries _ hes _ =>
    exact fun e he => (hes.built (List.infix_refl _) e he).1.mono fun s hs => hs.1

/-- The texts of some entries make a literal, and no two of them are merged in it. -/
theorem dictText_joined {es : List (Node × Node)} (hne : es ≠ [])
    (h : ∀ e ∈ es, e.1.Built Scalar.Readable ∧ e.2.Built Scalar.Readable) :
    DictText ('{' :: (Node.joined (es.map Node.ofPair) ++ ['}']))
      (es.map fun e => (e.1.reread, e.2.reread)) := by
  have hblank : Blank [] := nofun
  have hentries := entries_joined hne fun e he => ⟨item_chars (h e he).1, item_chars (h e he).2⟩
  simpa using DictText.entries hblank hentries hblank

end Grammar

namespace Reader

/-! ## 4. Their values -/

/-- The value of an expression, where nothing limits the reading. -/
theorem eval_of_expr {text : String} {r : Node} {v : Value} (h : Expr text.toList r)
    (hv : r.fold = .ok v) : eval text none = .ok v := by
  rw [eval, read_of_expr h]
  simp only [Tree.fold_eq, hv]

/-- **The value of the literal of a dictionary**, whose parts have values and whose keys may be
keys.  Its keys are the first of each class of the keys as written, in their places.  Under each of
them is the last value of its class once the class is merged as trees; it is the last value of the
class, unless a key returns in it; and where none does in any class, the whole is the dictionary
that the pairs as written make. -/
theorem eval_dictText {text : String} {es : List (Node × Node)} {ps : List (Value × Value)}
    (htext : DictText text.toList es)
    (hfold : List.Forall₂ (fun e p => e.1.fold = .ok p.1 ∧ e.2.fold = .ok p.2) es ps)
    (hkeys : ∀ p ∈ ps, p.1.hashable = true) :
    ∃ d, eval text none = .ok (.dict d) ∧
      d.map Prod.fst = Keyed.distinct Value.same (ps.map Prod.fst) ∧
      (∀ e ∈ es, Keyed.get? Value.same e.1.value d =
        ((Keyed.ofPairs Node.same (es.filter fun f => f.1.sameValue e.1)).getLast?).map
          fun f => f.2.value) ∧
      (∀ e ∈ es, ¬ Keyed.Returns Node.same Node.sameValue (es.map Prod.fst) e.1 →
        Keyed.get? Value.same e.1.value d =
          ((ps.filter fun p => p.1.same e.1.value).getLast?).map Prod.snd) ∧
      ((∀ e ∈ es, ¬ Keyed.Returns Node.same Node.sameValue (es.map Prod.fst) e.1) →
        d = Keyed.ofPairs Value.same ps) := by
  obtain ⟨rfl, hparts⟩ := Node.entryValues_of_fold hfold
  have hkey : ∀ e ∈ es, e.1.Key := fun e he =>
    ⟨htext.built e he, (hparts e he).1, hkeys _ (List.mem_map_of_mem he)⟩
  have hsame : ∀ {a b : Node}, a.Key → b.Key → a.same b = true → a.sameValue b = true :=
    Node.sameValue_of_same
  have hkeyable : ∀ p ∈ Node.entryValues es, p.1.Keyable :=
    List.forall_mem_map.mpr fun e he => (hkey e he).keyable
  -- Both dictionaries are merged as trees before any value is taken.
  have hvalues : ∀ fs, Keyed.ofPairs Value.same (Node.entryValues fs) =
      Node.entryValues (Keyed.ofPairs Node.sameValue fs) := Keyed.ofPairs_map _ _
  refine ⟨_, eval_of_expr htext.expr (Node.fold_dict hkey fun e he => (hparts e he).2), ?_, ?_,
    ?_, ?_⟩
  · rw [← Keyed.map_fst_ofPairs Value.classes_keyable hkeyable, hvalues, hvalues,
      Node.map_fst_entryValues, Node.map_fst_entryValues]
    exact congrArg _ (Keyed.map_fst_ofPairs_ofPairs Node.classes_sameValue hsame hkey
      Node.classes_same)
  · intro e he
    rw [hvalues, Node.get?_entryValues, Keyed.get?_ofPairs_ofPairs Node.classes_sameValue hsame hkey
      (hkey e he), Option.map_map]
    rfl
  · intro e he hreturns
    rw [← Keyed.get?_ofPairs Value.classes_keyable hkeyable (hkey e he).keyable, hvalues, hvalues,
      Node.get?_entryValues, Node.get?_entryValues]
    exact congrArg _ (Keyed.get?_ofPairs_of_not_returns Node.classes_sameValue hsame hkey
      Node.classes_same (hkey e he) hreturns)
  · intro hreturns
    rw [hvalues, hvalues]
    exact congrArg _ (Keyed.ofPairs_ofPairs_of_not_returns Node.classes_sameValue hsame hkey
      Node.classes_same hreturns)

/-- Three entries, with the values `a`, `b` and `c`. -/
def lettered (j k l : Scalar) : List (Node × Node) :=
  [(.scalar j, .scalar (.str "a")), (.scalar k, .scalar (.str "b")),
    (.scalar l, .scalar (.str "c"))]

theorem dictText_lettered {j k l : Scalar} (hj : j.Readable) (hk : k.Readable)
    (hl : l.Readable) :
    DictText ('{' :: (Node.joined ((lettered j k l).map Node.ofPair) ++ ['}']))
      ((lettered j k l).map fun e => (e.1.reread, e.2.reread)) := by
  refine dictText_joined (List.cons_ne_nil _ _) ?_
  simp only [lettered, List.forall_mem_cons]
  exact ⟨⟨.scalar hj, .scalar trivial⟩, ⟨.scalar hk, .scalar trivial⟩,
    ⟨.scalar hl, .scalar trivial⟩, List.forall_mem_nil _⟩

theorem readable_one : (Scalar.int 1).Readable := by
  unfold Scalar.Readable
  decide

theorem same_one_one : Value.same (.int 1) (.int 1) = true := by
  simp [Value.same, Value.sameNumber, Value.number?]

theorem same_one_true : Value.same (.int 1) (.bool true) = true := by
  simp [Value.same, Value.sameNumber, Value.number?]

/-- Where `1` is written twice and then `True`, all three are one key with the value of `True`. -/
theorem eval_one_one_true :
    eval "\x7b1: 'a',1: 'b',True: 'c'\x7d" none = .ok (.dict [(.int 1, .str "c")]) := by
  have htext : DictText "\x7b1: 'a',1: 'b',True: 'c'\x7d".toList
      (lettered (.int 1) (.int 1) (.bool true)) :=
    dictText_lettered (l := .bool true) readable_one readable_one trivial
  have hfold : List.Forall₂ (fun (e : Node × Node) p => e.1.fold = .ok p.1 ∧ e.2.fold = .ok p.2)
      (lettered (.int 1) (.int 1) (.bool true))
      [(.int 1, .str "a"), (.int 1, .str "b"), (.bool true, .str "c")] :=
    .cons ⟨rfl, rfl⟩ (.cons ⟨rfl, rfl⟩ (.cons ⟨rfl, rfl⟩ .nil))
  obtain ⟨d, heval, -, -, -, hd⟩ := eval_dictText htext hfold (by simp [Value.hashable])
  rw [heval, hd]
  · rw [Keyed.ofPairs]
    simp [Keyed.put, same_one_one, same_one_true]
  · -- Only the three keys themselves could show a return, and the first two are the same.
    rintro e - ⟨x, y, z, hxyz, -, -, -, hxy⟩
    obtain ⟨⟩ := hxyz.eq_of_length rfl
    exact absurd hxy (by decide)

/-- **A key that returns loses its last value**: the value of `True`, written before the last `1`,
stays under the key. -/
theorem eval_one_true_one :
    DictText "\x7b1: 'a',True: 'b',1: 'c'\x7d".toList (lettered (.int 1) (.bool true) (.int 1)) ∧
      eval "\x7b1: 'a',True: 'b',1: 'c'\x7d" none = .ok (.dict [(.int 1, .str "b")]) ∧
      Keyed.ofPairs Value.same
        (Node.entryValues (lettered (.int 1) (.bool true) (.int 1))) =
          [(.int 1, .str "c")] := by
  have htext : DictText "\x7b1: 'a',True: 'b',1: 'c'\x7d".toList
      (lettered (.int 1) (.bool true) (.int 1)) :=
    dictText_lettered (k := .bool true) readable_one trivial readable_one
  have hone : Node.Key (.scalar (.int 1)) := ⟨.scalar readable_one, rfl, rfl⟩
  have htrue : Node.Key (.scalar (.bool true)) := ⟨.scalar trivial, rfl, rfl⟩
  have hkeys : ∀ e ∈ lettered (.int 1) (.bool true) (.int 1), e.1.Key := by
    simp only [lettered, List.forall_mem_cons]
    exact ⟨hone, htrue, hone, List.forall_mem_nil _⟩
  have hvalues : ∀ e ∈ lettered (.int 1) (.bool true) (.int 1), e.2.fold = .ok e.2.value := by
    simp only [lettered, List.forall_mem_cons]
    exact ⟨rfl, rfl, rfl, List.forall_mem_nil _⟩
  have hmerged : Keyed.ofPairs Node.same (lettered (.int 1) (.bool true) (.int 1)) =
      [(.scalar (.int 1), .scalar (.str "c")), (.scalar (.bool true), .scalar (.str "b"))] := rfl
  refine ⟨htext, ?_, ?_⟩
  · rw [eval_of_expr htext.expr (Node.fold_dict hkeys hvalues), hmerged]
    change Except.ok (Value.dict (Keyed.ofPairs Value.same
      [(.int 1, .str "c"), (.bool true, .str "b")])) = _
    rw [Keyed.ofPairs]
    simp [Keyed.put, same_one_true]
  · change Keyed.ofPairs Value.same
      [(.int 1, Value.str "a"), (.bool true, .str "b"), (.int 1, .str "c")] = _
    rw [Keyed.ofPairs]
    simp [Keyed.put, same_one_true, same_one_one]

end Reader

end Literals
