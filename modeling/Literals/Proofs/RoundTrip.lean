/-
# Round trips

Two statements about `read` and `Node.text` together.

* **What can be written by hand is read back as it was** (`read_text_of_built`): the same
  constructors, the same order of elements, the same payloads.
* **What was read once is canonical up to one thing** (`exists_reread`): printing it and reading it
  again succeeds, and gives an equal tree exactly when the first one holds no decimal in the range
  of 64-bit integers.  Only a very long run of digits is read as such a decimal.
-/
import Literals.Proofs.Acceptance
import Literals.Proofs.Rereading

namespace Literals

open Number Grammar Reader

/-! ## 1. Scalars of a tree that is built -/

namespace Node

theorem Built.mono {ok ok' : Scalar → Prop} (hok : ∀ s, ok s → ok' s) {n : Node}
    (h : n.Built ok) : n.Built ok' := by
  induction h with
  | scalar hs => exact .scalar (hok _ hs)
  | none => exact .none
  | complex hre him => exact .complex hre him
  | tuple _ ih => exact .tuple ih
  | list _ ih => exact .list ih
  | set hne _ ih => exact .set hne ih
  | dict _ _ ihk ihv => exact .dict ihk ihv

/-- Some decimal of the tree lies in the range of 64-bit integers. -/
def HoldsNarrow (n : Node) : Prop :=
  ∃ d, n.Holds (.decimal d) ∧ d.Narrow

end Node

/-! ## 2. Trees that are read -/

namespace Grammar

/-- The scalars that the reader may return from a text: a narrow decimal only from a long run of
digits. -/
def ReadFrom (text : List Char) (s : Scalar) : Prop :=
  s.Readable ∧ ∀ d, s = .decimal d → d.Narrow →
    ∃ ds, longestInteger < ds.length ∧ (∀ c ∈ ds, c.isDigit = true) ∧ ds <:+: text

variable {text : List Char}

theorem readFrom_of_ne_decimal {s : Scalar} (h : s.Readable) (hs : ∀ d, s ≠ .decimal d) :
    ReadFrom text s :=
  ⟨h, fun d hd => absurd hd (hs d)⟩

theorem readFrom_integerScalar {minus : Bool} {ds : List Char} (hds : Digits ds)
    (h : ds <:+: text) : ReadFrom text (integerScalar minus ds) := by
  obtain ⟨n, hn⟩ : ∃ n, n = signedValue minus (ofDigits ds) := ⟨_, rfl⟩
  rw [integerScalar, ← hn]
  split
  next =>
    by_cases h64 : InInt64 n
    · by_cases h32 : InInt32 n
      · rw [Scalar.ofInt_of_int32 h32]
        exact readFrom_of_ne_decimal h32 (by simp)
      · rw [Scalar.ofInt_of_int64 h64 h32]
        exact readFrom_of_ne_decimal ⟨h64, h32⟩ (by simp)
    · rw [Scalar.ofInt_of_wide h64]
      refine ⟨rfl, ?_⟩
      rintro _ ⟨⟩ hnarrow
      rw [Decimal.narrow_iff rfl, Decimal.integer_ofInt] at hnarrow
      exact absurd hnarrow h64
  next hlong => exact ⟨rfl, fun d _ _ => ⟨ds, Nat.lt_of_not_le hlong, hds.2, h⟩⟩

theorem readFrom_value (x : Numeral) : ReadFrom text (.float x.value) :=
  readFrom_of_ne_decimal (Binary64.isNaN_ofDecimal _ _ _) nofun

section Infixes

variable {u v : List Char} {c : Char}

theorem infix_left (h : u ++ v <:+: text) : u <:+: text :=
  (List.prefix_append u v).isInfix.trans h

theorem infix_right (h : u ++ v <:+: text) : v <:+: text :=
  (List.suffix_append u v).isInfix.trans h

theorem infix_tail (h : c :: v <:+: text) : v <:+: text :=
  (List.suffix_cons c v).isInfix.trans h

end Infixes

mutual

/-- **An item is built from scalars that the reader may return.** -/
theorem Item.built : ∀ {w : List Char} {x : Node}, Item w x → w <:+: text →
    x.Built (ReadFrom text)
  | _, _, .noneLiteral, _ => .none
  | _, _, .trueLiteral, _ => .scalar (readFrom_of_ne_decimal trivial nofun)
  | _, _, .falseLiteral, _ => .scalar (readFrom_of_ne_decimal trivial nofun)
  | _, _, .string _ _, _ => .scalar (readFrom_of_ne_decimal trivial nofun)
  | _, _, .integer hds, h => .scalar (readFrom_integerScalar hds (infix_right h))
  | _, _, .float _ _ _, _ => .scalar (readFrom_value _)
  | _, _, .imaginary _, _ => .complex rfl (Binary64.isNaN_ofDecimal _ _ _)
  | _, _, .complex _ _ _, _ =>
    .complex (Binary64.isNaN_ofDecimal _ _ _) (Binary64.isNaN_ofDecimal _ _ _)
  | _, _, .emptyList _, _ => .list nofun
  | _, _, .list hxs, h => .list (hxs.built (infix_left (infix_tail h)))
  | _, _, .set hxs, h => .set hxs.ne_nil (hxs.built (infix_left (infix_tail h)))
  | _, _, .emptyDict _, _ => .dict nofun nofun
  | _, _, .dict hes, h =>
    .dict (fun e he => (hes.built (infix_left (infix_tail h)) e he).1)
      fun e he => (hes.built (infix_left (infix_tail h)) e he).2
  | _, _, .emptyTuple _, _ => .tuple nofun
  | _, _, .singleton hx _, h =>
    .tuple (List.forall_mem_singleton.mpr (hx.built (infix_left (infix_tail h))))
  | _, _, .tuple hx hxs, h =>
    .tuple (List.forall_mem_cons.mpr ⟨hx.built (infix_left (infix_tail h)),
      hxs.built (infix_left (infix_tail (infix_right (infix_tail h))))⟩)
  | _, _, .tupleComma hx hxs _, h =>
    .tuple (List.forall_mem_cons.mpr ⟨hx.built (infix_left (infix_tail h)),
      hxs.built (infix_left (infix_tail (infix_right (infix_tail h))))⟩)

theorem Expr.built : ∀ {w : List Char} {x : Node}, Expr w x → w <:+: text →
    x.Built (ReadFrom text)
  | _, _, .blanks _ hx _, h => hx.built (infix_left (infix_right h))

theorem Exprs.built : ∀ {w : List Char} {xs : List Node}, Exprs w xs → w <:+: text →
    ∀ x ∈ xs, x.Built (ReadFrom text)
  | _, _, .one hx, h => List.forall_mem_singleton.mpr (hx.built h)
  | _, _, .cons hx hxs, h => List.forall_mem_cons.mpr
      ⟨hx.built (infix_left h), hxs.built (infix_tail (infix_right h))⟩

theorem Entries.built : ∀ {w : List Char} {es : List (Node × Node)}, Entries w es →
    w <:+: text → ∀ e ∈ es, e.1.Built (ReadFrom text) ∧ e.2.Built (ReadFrom text)
  | _, _, .one hk hx, h => List.forall_mem_singleton.mpr
      ⟨hk.built (infix_left h), hx.built (infix_tail (infix_right h))⟩
  | _, _, .cons hk hx hes, h => List.forall_mem_cons.mpr
      ⟨⟨hk.built (infix_left h), hx.built (infix_left (infix_tail (infix_right h)))⟩,
        hes.built (infix_tail (infix_right (infix_tail (infix_right h))))⟩

end

end Grammar

/-! ## 3. Both ways -/

namespace Node

/-- A tree is built from the scalars that it holds. -/
theorem Built.of_holds {ok : Scalar → Prop} {n : Node} {s : Scalar} (h : n.Built ok)
    (hs : n.Holds s) : ok s := by
  induction h with
  | scalar hok =>
    cases hs
    exact hok
  | none => cases hs
  | complex _ _ => cases hs
  | tuple _ ih =>
    cases hs with
    | element hx hs => exact ih _ hx hs
  | list _ ih =>
    cases hs with
    | element hx hs => exact ih _ hx hs
  | set _ _ ih =>
    cases hs with
    | element hx hs => exact ih _ (Keyed.mem_of_mem_distinct hx) hs
  | dict _ _ ihk ihv =>
    cases hs with
    | element hx hs =>
      obtain ⟨e, he, rfl⟩ := List.mem_map.mp hx
      obtain ⟨hk, hv⟩ := Keyed.forall_ofPairs (P := fun k => k.Holds s → ok s)
        (Q := fun v => v.Holds s → ok s) (fun p hp => ⟨ihk p hp, ihv p hp⟩) e he
      cases hs with
      | key hs => exact hk hs
      | value hs => exact hv hs

end Node

namespace Reader

open Node

theorem toList_text (n : Node) : n.text.toList = n.chars :=
  String.toList_ofList

/-- The text of a tree is read as the reread tree. -/
theorem read_text {n : Node} (h : n.Built Scalar.Readable) : read n.text none = .ok ⟨n.reread⟩ :=
  read_of_expr (by
    rw [toList_text]
    exact (item_chars h).toExpr)

/-- A tree that is read is built from scalars that the reader may return. -/
theorem built_of_read {text : String} {limit : Option Int} {t : Tree}
    (h : read text limit = .ok t) : t.root.Built (ReadFrom text.toList) :=
  (expr_of_read h).built List.infix_rfl

/-- A narrow decimal does not come back, so none is in a tree that was read from the text of
another one. -/
theorem not_narrow_of_same {a b : Node} (ha : a.Built Scalar.Readable) (hb : b.Proper)
    (hreread : b = a.reread) (h : b.same a = true) : ¬ a.HoldsNarrow := by
  rintro ⟨d, hd, hnarrow⟩
  obtain ⟨s, hs, hsame⟩ := exists_holds_of_same hd (same_symm hb h)
  obtain ⟨e, rfl, hvalue⟩ := Scalar.exists_of_same_decimal hsame
  obtain ⟨r, hr, he⟩ := exists_holds_of_reread (hreread ▸ hs)
  exact Scalar.wide_of_reread_eq he.symm (ha.of_holds hr) ((Decimal.narrow_congr hvalue).mp hnarrow)

/-- Without a narrow decimal, a tree that was read comes back. -/
theorem reread_eq_of_not_narrow {n : Node} (h : n.Built Scalar.Readable) (hn : ¬ n.HoldsNarrow) :
    n.reread = n :=
  reread_eq h fun s hs => Scalar.Encodable.reread_eq ⟨h.of_holds hs, by
    rintro d rfl hd
    exact hn ⟨d, hs, hd⟩⟩

/-- **Reading undoes printing**: a tree of scalars that come back, made by the constructors of the
language, is read from its text as it was, in the same order and with the same payloads. -/
theorem read_text_of_built {n : Node} (h : n.Built Scalar.Encodable) :
    read n.text none = .ok ⟨n⟩ := by
  rw [read_text (h.mono fun s hs => hs.1), reread_eq h fun s hs => (h.of_holds hs).reread_eq]

/-- A dictionary with a key and values of many kinds: signed zeros and infinities, escapes, and an
integer on each side of every bound. -/
def assorted : Node :=
  .dict [
    (.tuple [.scalar (.int (-2 ^ 31)), .scalar (.long (2 ^ 31)),
        .scalar (.decimal ⟨true, 2 ^ 64, 0⟩)],
      .set [.scalar (.str "it's\n"), .complex (.infinite true) (.finite true .zero), .none]),
    (.scalar (.bool true), .list [.scalar (.float (.finite true .zero)), .tuple [], .dict []])]

theorem assorted_built : assorted.Built Scalar.Encodable := by
  have hint : Scalar.Encodable (.int (-2 ^ 31)) := ⟨by unfold Scalar.Readable; decide, nofun⟩
  have hlong : Scalar.Encodable (.long (2 ^ 31)) := ⟨by unfold Scalar.Readable; decide, nofun⟩
  have hdecimal : Scalar.Encodable (.decimal ⟨true, 2 ^ 64, 0⟩) := by
    refine ⟨rfl, ?_⟩
    rintro _ ⟨⟩
    rw [Decimal.narrow_iff rfl]
    decide
  have hfloat : Scalar.Encodable (.float (.finite true .zero)) := ⟨rfl, nofun⟩
  have hkey : (Node.tuple [.scalar (.int (-2 ^ 31)), .scalar (.long (2 ^ 31)),
      .scalar (.decimal ⟨true, 2 ^ 64, 0⟩)]).Built Scalar.Encodable :=
    .tuple (by
      simp only [List.forall_mem_cons]
      exact ⟨.scalar hint, .scalar hlong, .scalar hdecimal, nofun⟩)
  have hset : (Node.set [.scalar (.str "it's\n"), .complex (.infinite true) (.finite true .zero),
      .none]).Built Scalar.Encodable := by
    refine .set nofun ?_
    simp only [List.forall_mem_cons]
    exact ⟨.scalar ⟨trivial, nofun⟩, .complex rfl rfl, .none, nofun⟩
  have hlist : (Node.list [.scalar (.float (.finite true .zero)), .tuple [], .dict []]).Built
      Scalar.Encodable := by
    refine .list ?_
    simp only [List.forall_mem_cons]
    exact ⟨.scalar hfloat, .tuple nofun, .dict nofun nofun, nofun⟩
  refine .dict ?_ ?_
  · simp only [List.forall_mem_cons]
    exact ⟨hkey, .scalar ⟨trivial, nofun⟩, nofun⟩
  · simp only [List.forall_mem_cons]
    exact ⟨hset, hlist, nofun⟩

theorem read_text_assorted :
    assorted.Built Scalar.Encodable ∧ read assorted.text none = .ok ⟨assorted⟩ :=
  ⟨assorted_built, read_text_of_built assorted_built⟩

/-- **Printing what was read and reading it again** succeeds, and gives an equal tree exactly when
the first one holds no narrow decimal; then the text is the same too.  Only more than
`longestInteger` digits in a row are read as a narrow decimal. -/
theorem exists_reread {text : String} {t : Tree} (h : read text none = .ok t) :
    ∃ u : Tree, read t.root.text none = .ok u ∧ (u.eq t = true ↔ ¬ t.root.HoldsNarrow) ∧
      (¬ t.root.HoldsNarrow → u.root.text = t.root.text) ∧
      (t.root.HoldsNarrow → ∃ ds, longestInteger < ds.length ∧ (∀ c ∈ ds, c.isDigit = true) ∧
        ds <:+: text.toList) := by
  have hbuilt := built_of_read h
  have hreadable := hbuilt.mono fun s hs => hs.1
  have hread := read_text hreadable
  have hself := reread_eq_of_not_narrow hreadable
  refine ⟨⟨t.root.reread⟩, hread, ⟨fun heq => ?_, fun hn => ?_⟩, fun hn => ?_, ?_⟩
  · exact not_narrow_of_same hreadable (built_of_read hread).proper rfl heq
  · change t.root.reread.same t.root = true
    rw [hself hn]
    exact same_refl t.root
  · change t.root.reread.text = t.root.text
    rw [hself hn]
  · rintro ⟨d, hd, hnarrow⟩
    exact (hbuilt.of_holds hd).2 d rfl hnarrow

/-- A five behind so many zeros is read as a decimal. -/
theorem read_zeros_five {k : Nat} (hk : longestInteger ≤ k) :
    read (String.ofList (List.replicate k '0' ++ ['5'])) none =
      .ok ⟨.scalar (.decimal ⟨false, 5, 0⟩)⟩ := by
  have hdigits : Digits (List.replicate k '0' ++ ['5']) := by
    refine ⟨by simp, fun c hc => ?_⟩
    rcases List.mem_append.mp hc with hc | hc
    · exact isDigit_of_mem_replicate hc
    · obtain rfl := List.mem_singleton.mp hc
      rfl
  have hlong : ¬ (List.replicate k '0' ++ ['5']).length ≤ longestInteger := by
    rw [List.length_append, List.length_replicate, List.length_singleton]
    omega
  have hitem : Item (minusText false ++ (List.replicate k '0' ++ ['5'])) _ := .integer hdigits
  rw [integerScalar, if_neg hlong, ofDigits_replicate_append] at hitem
  refine read_of_expr ?_
  rw [String.toList_ofList]
  exact hitem.toExpr

/-- The zeros are lost, and with them the kind of the number. -/
theorem reread_zeros_five :
    ∃ u : Tree, read (Node.scalar (.decimal ⟨false, 5, 0⟩)).text none = .ok u ∧
      u.eq ⟨.scalar (.decimal ⟨false, 5, 0⟩)⟩ = false := by
  obtain ⟨u, hu, heq, -⟩ := exists_reread (read_zeros_five (k := 4301) (by decide))
  have hnarrow : (Node.scalar (.decimal ⟨false, 5, 0⟩)).HoldsNarrow := by
    refine ⟨_, .scalar, ?_⟩
    rw [Decimal.narrow_iff rfl]
    decide
  exact ⟨u, hu, Bool.eq_false_iff.mpr fun h => heq.mp h hnarrow⟩

end Reader

end Literals
