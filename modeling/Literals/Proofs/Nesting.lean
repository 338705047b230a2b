/-
# Brackets in a text

A scan from left to right counts the brackets that are open, and skips the strings.  Neither
blanks nor the characters of numbers change the count (`after_of_inert`), nor does anything between
two quotes (`Body.after`).  The number of open brackets at a point is a property of the text before
it alone: **whoever stands at an offset stands inside just so many compounds** (`Stands.unique`).
-/
import Literals.Proofs.Soundness

namespace Literals.Grammar

open Number Reader

/-! ## 1. The scan -/

/-- Where a scan stands: between the literals, in a string, or behind a backslash in a string. -/
inductive Mode where
  | outside
  | within (quote : Char)
  | escaped (quote : Char)
deriving DecidableEq, Repr

/-- A scan of a text: the number of brackets that are open, and where it stands. -/
structure Scan where
  depth : Nat
  mode : Mode
deriving DecidableEq, Repr

namespace Scan

/-- A scan that is in no string, with a number of open brackets. -/
def outside (depth : Nat) : Scan :=
  ⟨depth, .outside⟩

/-- The brackets that close a compound literal. -/
def isClosing (c : Char) : Bool :=
  c == ']' || c == '}' || c == ')'

/-- The scan after one more character. -/
def step (s : Scan) (c : Char) : Scan :=
  match s.mode with
  | .outside =>
    if isOpening c then { s with depth := s.depth + 1 }
    else if isClosing c then { s with depth := s.depth - 1 }
    else if isQuote c then { s with mode := .within c }
    else s
  | .within quote =>
    if c = quote then { s with mode := .outside }
    else if c = '\\' then { s with mode := .escaped quote }
    else s
  | .escaped quote => { s with mode := .within quote }

/-- The scan after a text. -/
def after (s : Scan) (w : List Char) : Scan :=
  w.foldl step s

@[simp] theorem after_nil (s : Scan) : s.after [] = s := rfl

@[simp] theorem after_cons (s : Scan) (c : Char) (w : List Char) :
    s.after (c :: w) = (s.step c).after w := rfl

@[simp] theorem after_append (s : Scan) (u w : List Char) :
    s.after (u ++ w) = (s.after u).after w :=
  List.foldl_append

end Scan

/-! ## 2. Texts that do not count -/

/-- The character is no bracket and no quote. -/
def Inert (c : Char) : Prop :=
  isOpening c = false ∧ Scan.isClosing c = false ∧ isQuote c = false

instance (c : Char) : Decidable (Inert c) :=
  inferInstanceAs (Decidable (_ ∧ _ ∧ _))

theorem Inert.step {c : Char} (h : Inert c) (d : Nat) :
    (Scan.outside d).step c = .outside d := by
  simp [Scan.step, Scan.outside, h.1, h.2.1, h.2.2]

/-- A text without brackets and quotes leaves a scan outside the strings as it is. -/
theorem after_of_inert {w : List Char} (h : ∀ c ∈ w, Inert c) (d : Nat) :
    (Scan.outside d).after w = .outside d := by
  induction w with
  | nil => rfl
  | cons c t ih =>
    rw [Scan.after_cons, (h c List.mem_cons_self).step]
    exact ih fun x hx => h x (List.mem_cons_of_mem c hx)

/-- A scan stays in a string up to the quote that ends it. -/
theorem Body.after {q : Char} (hq : q ≠ '\\') {s : List Char} (h : Body q s) (d : Nat) :
    Scan.after ⟨d, .within q⟩ s = ⟨d, .within q⟩ := by
  induction h with
  | nil => rfl
  | plain hquote hback _ ih => simpa [Scan.step, hquote, hback] using ih
  | escaped _ ih => simpa [Scan.step, hq.symm] using ih

theorem inert_of_isBlank {c : Char} (h : Text.isBlank c = true) : Inert c := by
  have hne : ∀ x, Text.isBlank x = false → c ≠ x := fun x hx hc => by rw [← hc, h] at hx; cases hx
  simp only [Inert, isOpening, Scan.isClosing, isQuote, Bool.or_eq_false_iff,
    beq_eq_false_iff_ne]
  refine ⟨⟨⟨?_, ?_⟩, ?_⟩, ⟨⟨?_, ?_⟩, ?_⟩, ?_, ?_⟩ <;> exact hne _ (by decide)

theorem inert_of_isFloatChar {c : Char} (h : isFloatChar c = true) : Inert c :=
  of_isFloatChar (P := Inert) (by decide) h

end Literals.Grammar

namespace Literals.Reader

open Grammar

/-! ## 3. Points inside compounds -/

/-- The point lies in the text, outside its strings and inside `depth` open brackets. -/
def Stands (text : List Char) (depth : Nat) (p : Point) : Prop :=
  ∃ w, Spans (.start text) w p ∧ (Scan.outside 0).after w = .outside depth

variable {text : List Char} {depth depth' : Nat} {p q : Point}

/-- **The offset decides the rest**: the point and the number of open brackets. -/
theorem Stands.unique (h : Stands text depth p) (h' : Stands text depth' q)
    (hoffset : p.offset = q.offset) : p = q ∧ depth = depth' := by
  obtain ⟨u, hu, hdepth⟩ := h
  obtain ⟨w, hw, hdepth'⟩ := h'
  have hlength : u.length = w.length := by
    have := hu.offset.symm.trans (hoffset.trans hw.offset)
    exact Nat.add_left_cancel this
  obtain ⟨rfl, -⟩ := List.append_inj (hu.rest.symm.trans hw.rest) hlength
  refine ⟨hu.right_unique hw, ?_⟩
  have hsame : Scan.outside depth = .outside depth' := hdepth.symm.trans hdepth'
  exact congrArg Scan.depth hsame

end Literals.Reader
