/-
# Texts without control sequences

A stream that takes no control sequences takes them out of what is printed.  In the text of a tree
they stand in strings only, and none of them goes beyond the string, since no character of a
sequence is written escaped and none can be a quote.  So **what is left is the text of a tree**, the
one without sequences in its strings (`Node.unstyled`); elements and keys of it may repeat.
-/
import Literals.Text.Ansi
import Literals.Proofs.Rereading

namespace Literals

open Number Grammar Reader

/-! ## 1. Strings -/

namespace Text.Ansi

open Quoted

variable {c : Char} {s t u : List Char}

/-- The characters of control sequences. -/
def isSequenceChar (c : Char) : Bool :=
  c == esc || c == '[' || isParameter c || c.isAlpha

/-- No character of a control sequence is written escaped. -/
theorem escape_cases (c : Char) :
    escape c = [c] ∨ ∃ e, escape c = ['\\', e] ∧ e ≠ esc ∧ isSequenceChar c = false := by
  unfold escape
  split
  next e he =>
    refine Or.inr ⟨e, rfl, ?_⟩
    unfold escapeLetter? at he
    split at he <;> first | (obtain rfl := Option.some.inj he; decide) | cases he
  next => exact Or.inl rfl

theorem isParameter_eq_false (h : isSequenceChar c = false) : isParameter c = false := by
  simp only [isSequenceChar, Bool.or_eq_false_iff] at h
  exact h.1.2

theorem isAlpha_eq_false (h : isSequenceChar c = false) : c.isAlpha = false := by
  simp only [isSequenceChar, Bool.or_eq_false_iff] at h
  exact h.2

theorem afterSequence?_of_ne (h : c ≠ '[') (t : List Char) : afterSequence? (c :: t) = none := by
  unfold afterSequence?
  split
  next heq => exact absurd (List.cons.inj heq).1 h
  next => rfl

/-- The parameters of a sequence are found in what is written between quotes. -/
theorem dropWhile_flatMap_escape (s t : List Char) :
    (s.flatMap escape ++ '\'' :: t).dropWhile isParameter =
      (s.dropWhile isParameter).flatMap escape ++ '\'' :: t := by
  induction s with
  | nil => rfl
  | cons c s ih =>
    rcases escape_cases c with h | ⟨e, h, -, hc⟩
    · cases hc : isParameter c with
      | true =>
        rw [List.dropWhile_cons_of_pos hc, ← ih, List.flatMap_cons, h]
        exact List.dropWhile_cons_of_pos hc
      | false =>
        have hstop : ¬ isParameter c = true := Bool.eq_false_iff.mp hc
        rw [List.dropWhile_cons_of_neg hstop, List.flatMap_cons, h]
        exact List.dropWhile_cons_of_neg hstop
    · have hstop := Bool.eq_false_iff.mp (isParameter_eq_false hc)
      rw [List.dropWhile_cons_of_neg hstop, List.flatMap_cons, h]
      exact List.dropWhile_cons_of_neg (by decide)

/-- **A sequence is found in what is written between quotes where it is found in the text.** -/
theorem afterSequence?_flatMap_escape (s t : List Char) :
    afterSequence? (s.flatMap escape ++ '\'' :: t) =
      (afterSequence? s).map fun r => r.flatMap escape ++ '\'' :: t := by
  cases s with
  | nil => rfl
  | cons c s =>
    by_cases hc : c = '['
    · subst hc
      have hopen : ('[' :: s).flatMap escape = '[' :: s.flatMap escape := rfl
      rw [hopen, List.cons_append, afterSequence?, afterSequence?, dropWhile_flatMap_escape]
      cases hd : s.dropWhile isParameter with
      | nil => rfl
      | cons d r =>
        rw [List.flatMap_cons]
        rcases escape_cases d with h | ⟨e, h, -, hd⟩
        · rw [h]
          change (if d.isAlpha then some _ else none) =
            (if d.isAlpha then some r else none).map _
          split <;> rfl
        · have halpha := isAlpha_eq_false hd
          rw [h]
          change none = (if d.isAlpha then some r else none).map _
          rw [halpha]
          rfl
    · rw [afterSequence?_of_ne hc]
      rcases escape_cases c with h | ⟨e, h, -, -⟩
      · rw [List.flatMap_cons, h]
        exact afterSequence?_of_ne hc _
      · rw [List.flatMap_cons, h]
        rfl

theorem strip_of_none (h : afterSequence? s = none) : strip (esc :: s) = esc :: strip s := by
  rw [strip, if_pos rfl]
  split
  next r hr =>
    rw [h] at hr
    cases hr
  next => rfl

/-- What is written between quotes loses the sequences of the text. -/
theorem strip_flatMap_escape (s t : List Char) :
    strip (s.flatMap escape ++ '\'' :: t) = (strip s).flatMap escape ++ '\'' :: strip t := by
  have hesc : ∀ s : List Char, (esc :: s).flatMap escape = esc :: s.flatMap escape := fun _ => rfl
  -- Stripping goes on behind a whole sequence, so the induction is over its own steps.
  fun_induction strip s with
  | case1 => exact strip_cons_of_ne (by decide) t
  | case2 s r hafter _ ih =>
    have hfound := afterSequence?_flatMap_escape s t
    rw [hafter] at hfound
    rw [hesc, List.cons_append, strip_sequence hfound, ih]
  | case3 s hafter ih =>
    have hfound := afterSequence?_flatMap_escape s t
    rw [hafter] at hfound
    rw [hesc, hesc, List.cons_append, strip_of_none hfound, ih, List.cons_append]
  | case4 c s hc ih =>
    rw [List.flatMap_cons, List.flatMap_cons, List.append_assoc, List.append_assoc]
    rcases escape_cases c with h | ⟨e, h, he, -⟩
    · rw [h, List.singleton_append, strip_cons_of_ne hc, ih, List.singleton_append]
    · rw [h, List.cons_append, List.singleton_append, strip_cons_of_ne (by decide),
        strip_cons_of_ne he, ih, List.cons_append, List.singleton_append]

/-- **A written string loses the sequences of the text.** -/
theorem strip_encode (s t : List Char) :
    strip (encode s ++ t) = encode (strip s) ++ strip t := by
  rw [encode, List.cons_append, strip_cons_of_ne (by decide), List.append_assoc,
    List.singleton_append, strip_flatMap_escape]
  simp [encode]

/-- A text without an escape loses nothing. -/
theorem strip_append (h : esc ∉ u) (t : List Char) : strip (u ++ t) = u ++ strip t := by
  induction u with
  | nil => rfl
  | cons c u ih =>
    rw [List.mem_cons, not_or] at h
    rw [List.cons_append, strip_cons_of_ne (Ne.symm h.1), ih h.2, List.cons_append]

/-- Stripping piece by piece. -/
theorem strip_flatMap {α : Type} {xs : List α} {f g : α → List Char}
    (h : ∀ x ∈ xs, ∀ t, strip (g x ++ t) = f x ++ strip t) (t : List Char) :
    strip (xs.flatMap g ++ t) = xs.flatMap f ++ strip t := by
  induction xs with
  | nil => rfl
  | cons x xs ih =>
    obtain ⟨hx, hxs⟩ := List.forall_mem_cons.mp h
    rw [List.flatMap_cons, List.flatMap_cons, List.append_assoc, hx, ih hxs, List.append_assoc]

end Text.Ansi

/-! ## 2. Numbers -/

namespace Grammar

open Text.Ansi

variable {w : List Char}

theorem esc_notMem_numeral {x : Numeral} (h : x.WellFormed) : esc ∉ x.text := fun hmem =>
  absurd (Numeral.isFloatChar_of_mem_text h esc hmem) (by decide)

/-- A scalar that is no string is written without escapes. -/
theorem esc_notMem_of_item {s : Scalar} (h : Item w (.scalar s)) (hs : ∀ r, s ≠ .str r) :
    esc ∉ w := by
  cases h with
  | trueLiteral => decide
  | falseLiteral => decide
  | string => exact absurd rfl (hs _)
  | @integer minus ds hds =>
    rw [List.mem_append, not_or]
    refine ⟨by cases minus <;> decide, fun hmem => absurd (hds.2 esc hmem) (by decide)⟩
  | float hx => exact esc_notMem_numeral hx

theorem esc_notMem_scalar {s : Scalar} (h : s.Readable) (hs : ∀ r, s ≠ .str r) :
    esc ∉ s.chars := by
  refine esc_notMem_of_item (item_scalar h) fun r hr => ?_
  cases s with
  | decimal d =>
    simp only [Scalar.reread, Scalar.ofInt] at hr
    split_ifs at hr
  | str r => exact hs r rfl
  | _ => cases hr

theorem esc_notMem_complex {re im : Binary64} (hre : re.isNaN = false) (him : im.isNaN = false) :
    esc ∉ (Node.complex re im).chars := by
  obtain ⟨x, hx, -, -, hxtext, -⟩ := exists_real hre
  obtain ⟨y, hy, -, hytext, -⟩ := exists_imaginary him
  have hxesc := esc_notMem_numeral hx
  have hyesc := esc_notMem_numeral hy
  rw [hxtext] at hxesc
  rw [hytext] at hyesc
  simp only [Node.chars, List.mem_cons, List.mem_append, not_or]
  exact ⟨by decide, ⟨hxesc, hyesc⟩, by decide⟩

end Grammar

/-! ## 3. Trees -/

namespace Node

open Text.Ansi Grammar

mutual

/-- The tree with the control sequences taken out of its strings. -/
def unstyled : Node → Node
  | .scalar (.str s) => .scalar (.str (Text.Ansi.plain s))
  | .keyValue k v => .keyValue (unstyled k) (unstyled v)
  | .sequence shape xs => .sequence shape (unstyledAll xs)
  | n => n

/-- The elements with the control sequences taken out of their strings. -/
def unstyledAll : List Node → List Node
  | [] => []
  | x :: xs => unstyled x :: unstyledAll xs

end

theorem unstyledAll_eq_map (xs : List Node) : unstyledAll xs = xs.map unstyled := by
  induction xs with
  | nil => rfl
  | cons x xs ih => rw [unstyledAll, ih, List.map_cons]

theorem unstyled_sequence (shape : Shape) (xs : List Node) :
    (sequence shape xs).unstyled = .sequence shape (xs.map unstyled) := by
  rw [unstyled, unstyledAll_eq_map]

theorem map_ofPair_unstyled (es : List (Node × Node)) :
    (es.map ofPair).map unstyled = (es.map fun e => (e.1.unstyled, e.2.unstyled)).map ofPair := by
  rw [List.map_map, List.map_map]
  exact List.map_congr_left fun e _ => unstyled.eq_2 e.1 e.2

/-- What can be written can be written without control sequences. -/
theorem Written.unstyled {n : Node} (h : n.Written Scalar.Readable) :
    n.unstyled.Written Scalar.Readable := by
  induction h with
  | @scalar s hs =>
    cases s with
    | str r => exact .scalar trivial
    | _ => exact .scalar hs
  | none => exact .none
  | complex hre him => exact .complex hre him
  | tuple _ ih =>
    rw [Node.tuple, unstyled_sequence]
    exact .tuple (List.forall_mem_map.mpr ih)
  | list _ ih =>
    rw [Node.list, unstyled_sequence]
    exact .list (List.forall_mem_map.mpr ih)
  | set hne _ ih =>
    rw [unstyled_sequence]
    exact .set (by simpa using hne) (List.forall_mem_map.mpr ih)
  | dict _ _ ihk ihv =>
    rw [unstyled_sequence, map_ofPair_unstyled]
    exact .dict (List.forall_mem_map.mpr ihk) (List.forall_mem_map.mpr ihv)

/-- The text of the tree loses the sequences in its strings, and nothing else, whatever follows. -/
def Loses (n : Node) : Prop :=
  ∀ t, strip (n.chars ++ t) = n.unstyled.chars ++ strip t

theorem strip_continued {xs : List Node} (h : ∀ x ∈ xs, x.Loses) (t : List Char) :
    strip (continued xs ++ t) = continued (xs.map Node.unstyled) ++ strip t := by
  induction xs with
  | nil => rfl
  | cons x xs ih =>
    obtain ⟨hx, hxs⟩ := List.forall_mem_cons.mp h
    rw [continued, List.cons_append, strip_cons_of_ne (by decide), List.append_assoc, hx, ih hxs,
      List.map_cons, continued, List.cons_append, List.append_assoc]

theorem strip_joined {xs : List Node} (h : ∀ x ∈ xs, x.Loses) (t : List Char) :
    strip (joined xs ++ t) = joined (xs.map Node.unstyled) ++ strip t := by
  cases xs with
  | nil => rfl
  | cons x xs =>
    obtain ⟨hx, hxs⟩ := List.forall_mem_cons.mp h
    rw [joined, List.append_assoc, hx, strip_continued hxs, List.map_cons, joined,
      List.append_assoc]

theorem loses_sequence (shape : Shape) {xs : List Node} (h : ∀ x ∈ xs, x.Loses) :
    (sequence shape xs).Loses := by
  intro t
  have hopen : shape.brackets.1 ≠ esc := by cases shape <;> decide
  have hclose : esc ∉ [shape.brackets.2] := by cases shape <;> decide
  have hcomma : esc ∉ lastComma shape xs := by
    unfold lastComma
    split <;> decide
  rw [unstyled_sequence, chars, chars, lastComma_map, List.cons_append, strip_cons_of_ne hopen,
    List.append_assoc, List.append_assoc, strip_joined h, strip_append hcomma,
    strip_append hclose]
  simp only [List.cons_append, List.append_assoc]

theorem loses_ofPair {e : Node × Node} (hk : e.1.Loses) (hv : e.2.Loses) : (ofPair e).Loses := by
  intro t
  have hchars : ∀ k v : Node, (keyValue k v).chars = k.chars ++ ':' :: ' ' :: v.chars :=
    fun _ _ => by rw [chars]
  rw [ofPair, Node.unstyled, hchars, hchars, List.append_assoc, hk, List.cons_append,
    List.cons_append, strip_cons_of_ne (by decide), strip_cons_of_ne (by decide), hv,
    List.append_assoc, List.cons_append, List.cons_append]

/-- **The text of a tree without its control sequences is the text of a tree.** -/
theorem Written.loses {n : Node} (h : n.Written Scalar.Readable) : n.Loses := by
  induction h with
  | @scalar s hs =>
    cases s with
    | str r =>
      intro t
      have hplain : (Text.Ansi.plain r).toList = strip r.toList := String.toList_ofList
      change strip (Text.Quoted.encode r.toList ++ t) =
        Text.Quoted.encode (Text.Ansi.plain r).toList ++ strip t
      rw [strip_encode, hplain]
    | _ => exact strip_append (esc_notMem_scalar hs nofun)
  | none => exact strip_append (by decide)
  | complex hre him => exact strip_append (esc_notMem_complex hre him)
  | tuple _ ih => exact loses_sequence .tuple ih
  | list _ ih => exact loses_sequence .list ih
  | set _ _ ih => exact loses_sequence .set ih
  | dict _ _ ihk ihv =>
    refine loses_sequence .dict (List.forall_mem_map.mpr fun e he => ?_)
    exact loses_ofPair (ihk e he) (ihv e he)

end Node

end Literals
