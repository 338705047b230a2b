/-
# Trees that a program makes

Trees are made by constructors that keep the elements of sets and the keys of dictionaries apart.
`Node.Made ok loose` says so, with `ok` for the scalars that may occur; **where `loose`, pairs may
stand anywhere and bare sequences too**, and else a tree is what literals denote, empty sets
included.

On trees without a NaN the two equalities are one (`eq_eq_same`), and this one is an equivalence
(`classes_made`).
-/
import Literals.Proofs.Alike
import Literals.Proofs.Rereading

namespace Literals

open Number

/-- The scalar is no NaN. -/
def Scalar.NotNaN (s : Scalar) : Prop :=
  ∀ x, s = .float x → x.isNaN = false

theorem Scalar.Readable.notNaN {s : Scalar} (h : s.Readable) : s.NotNaN := by
  rintro x rfl
  exact h

namespace Node

/-! ## 1. Constructors -/

/-- The trees that are made by the constructors of nodes, from certain scalars and from complex
numbers without a NaN. -/
inductive Made (ok : Scalar → Prop) (loose : Prop) : Node → Prop
  | scalar {s : Scalar} : ok s → Made ok loose (.scalar s)
  | none : Made ok loose .none
  | complex {re im : Binary64} : re.isNaN = false → im.isNaN = false →
      Made ok loose (.complex re im)
  | keyValue {k v : Node} : loose → Made ok loose k → Made ok loose v →
      Made ok loose (.keyValue k v)
  | tuple {xs : List Node} : (∀ x ∈ xs, Made ok loose x) → Made ok loose (.tuple xs)
  | list {xs : List Node} : (∀ x ∈ xs, Made ok loose x) → Made ok loose (.list xs)
  | bare {xs : List Node} : loose → (∀ x ∈ xs, Made ok loose x) →
      Made ok loose (.sequence .bare xs)
  | set {xs : List Node} : (∀ x ∈ xs, Made ok loose x) → Made ok loose (.set xs)
  | dict {es : List (Node × Node)} : (∀ e ∈ es, Made ok loose e.1) →
      (∀ e ∈ es, Made ok loose e.2) → Made ok loose (.dict es)

/-- The trees without a NaN that a program makes. -/
abbrev NaNFree (n : Node) : Prop :=
  n.Made Scalar.NotNaN True

/-- The trees without a NaN that are built from scalars, `None` and complex numbers as tuples,
lists, sets and dictionaries. -/
abbrev Plain (n : Node) : Prop :=
  n.Made Scalar.NotNaN False

variable {ok ok' : Scalar → Prop} {loose loose' : Prop} {n a b : Node}

theorem Made.mono (h : n.Made ok loose) (hok : ∀ s, ok s → ok' s) (hloose : loose → loose') :
    n.Made ok' loose' := by
  induction h with
  | scalar hs => exact .scalar (hok _ hs)
  | none => exact .none
  | complex hre him => exact .complex hre him
  | keyValue hl _ _ hk hv => exact .keyValue (hloose hl) hk hv
  | tuple _ ih => exact .tuple ih
  | list _ ih => exact .list ih
  | bare hl _ ih => exact .bare (hloose hl) ih
  | set _ ih => exact .set ih
  | dict _ _ ihk ihv => exact .dict ihk ihv

/-- What literals denote is made by the constructors. -/
theorem Built.made (h : n.Built ok) : n.Made ok False := by
  induction h with
  | scalar hs => exact .scalar hs
  | none => exact .none
  | complex hre him => exact .complex hre him
  | tuple _ ih => exact .tuple ih
  | list _ ih => exact .list ih
  | set _ _ ih => exact .set ih
  | dict _ _ ihk ihv => exact .dict ihk ihv

theorem Plain.naNFree (h : n.Plain) : n.NaNFree :=
  h.mono (fun _ => id) False.elim

theorem Built.plain (h : n.Built Scalar.Readable) : n.Plain :=
  h.made.mono (fun _ hs => hs.notNaN) id

theorem Made.proper (h : n.Made ok loose) : n.Proper := by
  induction h with
  | scalar _ => exact .scalar _
  | none => exact .none
  | complex _ _ => exact .complex _ _
  | keyValue _ _ _ hk hv => exact .keyValue hk hv
  | tuple _ ih => exact .sequence ih nofun
  | list _ ih => exact .sequence ih nofun
  | bare _ _ ih => exact .sequence ih nofun
  | set _ ih => exact .set ih
  | dict _ _ ihk ihv => exact .dict fun e he => ⟨ihk e he, ihv e he⟩

/-! ## 2. Parts -/

/-- The elements of a dictionary are pairs with keys apart. -/
theorem Made.exists_entries {xs : List Node} (h : (sequence .dict xs).Made ok loose) :
    ∃ es : List (Node × Node), xs = es.map ofPair ∧ Keyed.KeysApart same es ∧
      ∀ e ∈ es, e.1.Made ok loose ∧ e.2.Made ok loose := by
  generalize hn : sequence .dict xs = n at h
  cases h with
  | @dict es hk hv =>
    obtain ⟨-, rfl⟩ := Node.sequence.inj hn
    exact ⟨_, rfl, Keyed.keysApart_ofPairs es, Keyed.forall_ofPairs fun e he => ⟨hk e he, hv e he⟩⟩
  | _ => cases hn

theorem entries_pairs (es : List (Node × Node)) :
    (sequence .dict (es.map ofPair)).entries = es := by
  rw [entries, List.filterMap_map]
  exact List.filterMap_some

/-- The entries of a dictionary are the merged pairs. -/
theorem entries_dict (es : List (Node × Node)) :
    (dict es).entries = Keyed.ofPairs same es :=
  entries_pairs _

/-- The elements of other sequences are made like the sequence. -/
theorem Made.elements {shape : Shape} {xs : List Node} (h : (sequence shape xs).Made ok loose)
    (hshape : shape ≠ .dict) : ∀ x ∈ xs, x.Made ok loose := by
  generalize hn : sequence shape xs = n at h
  cases h with
  | tuple hxs | list hxs | bare _ hxs =>
    obtain ⟨-, rfl⟩ := Node.sequence.inj hn
    exact hxs
  | set hxs =>
    obtain ⟨-, rfl⟩ := Node.sequence.inj hn
    exact fun x hx => hxs x (Keyed.mem_of_mem_distinct hx)
  | dict =>
    obtain ⟨rfl, -⟩ := Node.sequence.inj hn
    exact absurd rfl hshape
  | _ => cases hn

/-- A property of all plain trees, from the parts that a set or a dictionary keeps. -/
@[elab_as_elim]
theorem Plain.induct {motive : Node → Prop}
    (scalar : ∀ s : Scalar, s.NotNaN → motive (.scalar s)) (none : motive .none)
    (complex : ∀ re im : Binary64, re.isNaN = false → im.isNaN = false → motive (.complex re im))
    (sequence : ∀ shape xs, shape ≠ .bare → shape ≠ .dict → (∀ x ∈ xs, motive x) →
      motive (.sequence shape xs))
    (dict : ∀ es : List (Node × Node), (∀ e ∈ es, motive e.1 ∧ motive e.2) →
      motive (.sequence .dict (es.map ofPair)))
    {n : Node} (h : n.Plain) : motive n := by
  induction h with
  | scalar hs => exact scalar _ hs
  | none => exact none
  | complex hre him => exact complex _ _ hre him
  | keyValue hloose => exact hloose.elim
  | bare hloose => exact hloose.elim
  | tuple _ ih => exact sequence .tuple _ (by decide) (by decide) ih
  | list _ ih => exact sequence .list _ (by decide) (by decide) ih
  | set _ ih =>
    exact sequence .set _ (by decide) (by decide) fun x hx => ih x (Keyed.mem_of_mem_distinct hx)
  | dict _ _ ihk ihv =>
    exact dict _ (Keyed.forall_ofPairs fun e he => ⟨ihk e he, ihv e he⟩)

/-! ## 3. Equality -/

/-- Dictionaries are the same when their pairs are found in each other, key with value. -/
theorem same_pairs_iff {es fs : List (Node × Node)} :
    (sequence .dict (es.map ofPair)).same (sequence .dict (fs.map ofPair)) = true ↔
      es.length = fs.length ∧
        ∀ e ∈ es, ∃ f ∈ fs, e.1.same f.1 = true ∧ e.2.same f.2 = true := by
  rw [same_unordered_iff rfl, List.length_map, List.length_map, List.forall_mem_map]
  simp [ofPair, same]

/-- Only a NaN is the same as a node that it does not equal. -/
theorem eq_eq_same (ha : a.Made Scalar.NotNaN loose) (b : Node) : a.eq b = a.same b := by
  cases ha with
  | @scalar s hs =>
    cases b with
    | scalar t =>
      cases s with
      | float x =>
        have hx := hs x rfl
        cases x with
        | nan i => cases hx
        | _ => cases t <;> rfl
      | _ => rfl
    | _ => rfl
  | _ => rfl

/-- **Sameness is an equivalence on the trees that a program makes.** -/
theorem classes_made : Keyed.Classes Node.same (Made ok loose) where
  refl _ := same_refl _
  symm ha _ := same_symm ha.proper
  trans _ _ _ := same_trans

end Node

end Literals
