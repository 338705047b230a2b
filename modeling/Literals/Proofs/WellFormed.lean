/-
# Trees that are read are well formed

`Node.WellFormed` is what can be said of one node without looking at the rest of the tree, except
for the kinds of its children and what they equal.  **Every node of every tree that the reader
returns is well formed** (`wellFormed_of_read`), under every limit.

One clause depends on the text: a decimal lies outside the range of 64-bit integers unless some run
of digits is longer than `longestInteger`, for such a run is kept as a decimal whatever it denotes.
-/
import Literals.Proofs.Folding
import Literals.Proofs.Made
import Literals.Proofs.RoundTrip

namespace Literals

open Grammar

/-! ## 1. One node -/

/-- No run of digits in the text is longer than an integer may be. -/
def ShortRuns (text : List Char) : Prop :=
  ∀ ds, ds <:+: text → (∀ c ∈ ds, c.isDigit = true) → ds.length ≤ Number.longestInteger

/-- What the payload of a scalar is, by kind, in a tree read from the text. -/
def Scalar.WellFormed (text : List Char) : Scalar → Prop
  | .int n => InInt32 n
  | .long n => InInt64 n ∧ ¬ InInt32 n
  | .float x => x.isNaN = false
  | .decimal d => d.exponent = 0 ∧ (ShortRuns text → ¬ InInt64 d.integer)
  | .bool _ => True
  | .str _ => True

namespace Node

/-- Whether the node is a pair of key and value. -/
def isPair : Node → Bool
  | .keyValue _ _ => true
  | _ => false

/-- Neither of the two nodes equals the other. -/
def Unequal (a b : Node) : Prop :=
  a.eq b = false ∧ b.eq a = false

/-- What a node is in a tree read from the text: scalars are of the kind that their payload asks
for, there is no NaN, sets are not empty, the elements of sets and the keys of dictionaries are
pairwise unequal, pairs are the elements of dictionaries and of nothing else, and every sequence has
brackets. -/
def WellFormed (text : List Char) : Node → Prop
  | .scalar s => s.WellFormed text
  | .none => True
  | .complex re im => re.isNaN = false ∧ im.isNaN = false
  | .keyValue k v => k.isPair = false ∧ v.isPair = false
  | .sequence .tuple xs => ∀ x ∈ xs, x.isPair = false
  | .sequence .list xs => ∀ x ∈ xs, x.isPair = false
  | .sequence .set xs => xs ≠ [] ∧ (∀ x ∈ xs, x.isPair = false) ∧ xs.Pairwise Unequal
  | .sequence .dict xs => (∀ x ∈ xs, x.isPair = true) ∧
      (sequence .dict xs).entries.Pairwise fun e f => Unequal e.1 f.1
  | .sequence .bare _ => False

end Node

/-! ## 2. Trees built from what the reader may return -/

variable {text : List Char}

theorem Grammar.ReadFrom.wellFormed {s : Scalar} (h : ReadFrom text s) : s.WellFormed text := by
  obtain ⟨hreadable, hnarrow⟩ := h
  cases s with
  | decimal d =>
    refine ⟨hreadable, fun hshort h64 => ?_⟩
    have hd : d.Narrow := (Number.Decimal.narrow_iff hreadable).mpr h64
    obtain ⟨ds, hlong, hdigits, hinfix⟩ := hnarrow d rfl hd
    exact absurd (hshort ds hinfix hdigits) (Nat.not_le_of_gt hlong)
  | _ => exact hreadable

namespace Node

theorem Built.isPair {ok : Scalar → Prop} {n : Node} (h : n.Built ok) : n.isPair = false := by
  cases h <;> rfl

theorem Built.naNFree {n : Node} (h : n.Built (ReadFrom text)) : n.NaNFree :=
  (h.mono fun _ hs => hs.1).plain.naNFree

/-- Without a NaN, what is not the same is unequal. -/
theorem pairwise_unequal {α : Type} {f : α → Node} {xs : List α} (hxs : ∀ x ∈ xs, (f x).NaNFree)
    (h : xs.Pairwise fun x y => (f x).same (f y) = false) :
    xs.Pairwise fun x y => Unequal (f x) (f y) := by
  refine h.imp_of_mem fun {x y} hx hy hne => ⟨(eq_eq_same (hxs x hx) _).trans hne, ?_⟩
  rw [eq_eq_same (hxs y hy), Bool.eq_false_iff]
  intro hyx
  rw [same_symm (hxs y hy).proper hyx] at hne
  cases hne

/-- **Every node of a tree that is built from scalars of the text is well formed.** -/
theorem Built.wellFormed {n : Node} (h : n.Built (ReadFrom text)) :
    ∀ m ∈ n.postorder, m.WellFormed text := by
  have hbelow : ∀ {n : Node}, n.WellFormed text →
      (∀ x ∈ n.children, ∀ m ∈ x.postorder, m.WellFormed text) →
        ∀ m ∈ n.postorder, m.WellFormed text := by
    intro n hn hchildren m hm
    rcases mem_postorder_iff.mp hm with rfl | ⟨x, hx, hm⟩
    · exact hn
    · exact hchildren x hx m hm
  induction h with
  | scalar hs => exact hbelow hs.wellFormed nofun
  | none => exact hbelow trivial nofun
  | complex hre him => exact hbelow ⟨hre, him⟩ nofun
  | tuple hxs ih => exact hbelow (fun x hx => (hxs x hx).isPair) ih
  | list hxs ih => exact hbelow (fun x hx => (hxs x hx).isPair) ih
  | @set xs hne hxs ih =>
    have hkept : ∀ x ∈ Keyed.distinct same xs, x.Built (ReadFrom text) := fun x hx =>
      hxs x (Keyed.mem_of_mem_distinct hx)
    refine hbelow ⟨Keyed.distinct_ne_nil hne, fun x hx => (hkept x hx).isPair, ?_⟩ fun x hx =>
      ih x (Keyed.mem_of_mem_distinct hx)
    exact pairwise_unequal (f := id) (fun x hx => (hkept x hx).naNFree)
      (Keyed.pairwise_distinct same xs)
  | @dict es hk hv ihk ihv =>
    have hkept : ∀ e ∈ Keyed.ofPairs same es, e.1.Built (ReadFrom text) ∧
        e.2.Built (ReadFrom text) := Keyed.forall_ofPairs fun e he => ⟨hk e he, hv e he⟩
    have hparts : ∀ e ∈ Keyed.ofPairs same es, (∀ m ∈ e.1.postorder, m.WellFormed text) ∧
        ∀ m ∈ e.2.postorder, m.WellFormed text :=
      Keyed.forall_ofPairs (P := fun k => ∀ m ∈ k.postorder, m.WellFormed text)
        (Q := fun v => ∀ m ∈ v.postorder, m.WellFormed text) fun e he => ⟨ihk e he, ihv e he⟩
    refine hbelow ⟨?_, ?_⟩ fun x hx => ?_
    · exact List.forall_mem_map.mpr fun e _ => rfl
    · change (Node.dict es).entries.Pairwise _
      rw [entries_dict]
      exact pairwise_unequal (f := Prod.fst) (fun e he => (hkept e he).1.naNFree)
        (Keyed.keysApart_ofPairs es)
    · obtain ⟨e, he, rfl⟩ := List.mem_map.mp hx
      refine hbelow ⟨(hkept e he).1.isPair, (hkept e he).2.isPair⟩ ?_
      exact List.forall_mem_cons.mpr
        ⟨(hparts e he).1, List.forall_mem_singleton.mpr (hparts e he).2⟩

end Node

namespace Reader

/-- **Every tree that is read is well formed**: its root is no pair, and every node of it is as
`Node.WellFormed` says. -/
theorem wellFormed_of_read {text : String} {limit : Option Int} {t : Tree}
    (h : read text limit = .ok t) :
    t.root.isPair = false ∧ ∀ n ∈ t.root.postorder, n.WellFormed text.toList :=
  ⟨(built_of_read h).isPair, (built_of_read h).wellFormed⟩

theorem wellFormed_of_read_dict :
    read "\x7b1: \x7bNone\x7d\x7d" none = .ok ⟨.dict [(.scalar (.int 1), .set [.none])]⟩ ∧
      ∀ n ∈ (Node.dict [(.scalar (.int 1), .set [.none])]).postorder,
        n.WellFormed "\x7b1: \x7bNone\x7d\x7d".toList := by
  have hone : (Node.scalar (.int 1)).Built Scalar.Readable := by
    refine .scalar ?_
    unfold Scalar.Readable
    decide
  have hset : (Node.set [.none]).Built Scalar.Readable := by
    refine .set (List.cons_ne_nil _ _) ?_
    simp [Node.Built.none]
  have hdict : (Node.dict [(.scalar (.int 1), .set [.none])]).Built Scalar.Readable := by
    refine .dict ?_ ?_
    · simp [hone]
    · simp [hset]
  have htext : (Node.dict [(.scalar (.int 1), .set [.none])]).text =
      "\x7b1: \x7bNone\x7d\x7d" := by
    decide +kernel
  have hread := read_text hdict
  rw [htext] at hread
  exact ⟨hread, (wellFormed_of_read hread).2⟩

end Reader

end Literals
