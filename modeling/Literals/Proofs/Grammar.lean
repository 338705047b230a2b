/-
# The grammar of literals

Which texts are literals, and of which trees, said without a reader: `Expr w x` says that the text
`w` is an expression for the tree `x`.  The productions are unordered, and none of them looks at
what follows.  **A text may be divided in any way that some production allows**; that only one way
leads anywhere is a theorem about the reader and not a part of the grammar.

What a text denotes is said by the productions too: an integer of at most `longestInteger` digits
is a scalar of the narrowest kind, a longer one a decimal with the sign that is written, and the
sets and dictionaries are built by `Node.set` and `Node.dict`.
-/
import Mathlib.Tactic.IntervalCases
import Literals.Proofs.Numeral

namespace Literals.Grammar

open Number Reader

/-! ## 1. Leaves -/

/-- The raw text between two quotes `q`: no bare quote, and a backslash with any character. -/
inductive Body (q : Char) : List Char → Prop
  | nil : Body q []
  | plain {c : Char} {s : List Char} : c ≠ q → c ≠ '\\' → Body q s → Body q (c :: s)
  | escaped {c : Char} {s : List Char} : Body q s → Body q ('\\' :: c :: s)

/-- A run of decimal digits, at least one. -/
def Digits (ds : List Char) : Prop :=
  ds ≠ [] ∧ ∀ c ∈ ds, c.isDigit = true

/-- The minus that an integer may have. -/
def minusText (minus : Bool) : List Char :=
  if minus then ['-'] else []

/-- The number that a sign and digits denote. -/
def signedValue (minus : Bool) (n : Nat) : Int :=
  if minus then -(n : Int) else n

/-- The scalar that an integer denotes. -/
def integerScalar (minus : Bool) (ds : List Char) : Scalar :=
  if ds.length ≤ longestInteger then .ofInt (signedValue minus (ofDigits ds))
  else .decimal ⟨minus, ofDigits ds, 0⟩

/-- Where the second number of a complex one may begin: at its sign, or at its point when the
first number ends with an exponent. -/
def Joins (x y : Numeral) : Prop :=
  y.text.head? = some '+' ∨ y.text.head? = some '-' ∨
    (y.text.head? = some '.' ∧ x.exponent.isSome)

/-! ## 2. Expressions -/

mutual

/-- A literal without blanks around it. -/
inductive Item : List Char → Node → Prop
  | noneLiteral : Item ['N', 'o', 'n', 'e'] .none
  | trueLiteral : Item ['T', 'r', 'u', 'e'] (.scalar (.bool true))
  | falseLiteral : Item ['F', 'a', 'l', 's', 'e'] (.scalar (.bool false))
  | string {q : Char} {s : List Char} : (q = '\'' ∨ q = '"') → Body q s →
      Item (q :: (s ++ [q])) (.scalar (.str (String.ofList (Text.Quoted.unescape s))))
  | integer {minus : Bool} {ds : List Char} : Digits ds →
      Item (minusText minus ++ ds) (.scalar (integerScalar minus ds))
  | float {x : Numeral} : x.WellFormed → x.sign ≠ .plus →
      (∃ c ∈ x.text, c = '.' ∨ c = 'e' ∨ c = 'E') → Item x.text (.scalar (.float x.value))
  | imaginary {x : Numeral} : x.WellFormed → Item (x.text ++ ['j']) (.complex .zero x.value)
  | complex {x y : Numeral} : x.WellFormed → y.WellFormed → Joins x y →
      Item ('(' :: (x.text ++ (y.text ++ ['j', ')']))) (.complex x.value y.value)
  | emptyList {u : List Char} : Blank u → Item ('[' :: (u ++ [']'])) (.list [])
  | list {w : List Char} {xs : List Node} : Exprs w xs → Item ('[' :: (w ++ [']'])) (.list xs)
  | set {w : List Char} {xs : List Node} : Exprs w xs → Item ('{' :: (w ++ ['}'])) (.set xs)
  | emptyDict {u : List Char} : Blank u → Item ('{' :: (u ++ ['}'])) (.dict [])
  | dict {w : List Char} {es : List (Node × Node)} : Entries w es →
      Item ('{' :: (w ++ ['}'])) (.dict es)
  | emptyTuple {u : List Char} : Blank u → Item ('(' :: (u ++ [')'])) (.tuple [])
  | singleton {w u : List Char} {x : Node} : Expr w x → Blank u →
      Item ('(' :: (w ++ ',' :: (u ++ [')']))) (.tuple [x])
  | tuple {w v : List Char} {x : Node} {xs : List Node} : Expr w x → Exprs v xs →
      Item ('(' :: (w ++ ',' :: (v ++ [')']))) (.tuple (x :: xs))
  | tupleComma {w v u : List Char} {x : Node} {xs : List Node} : Expr w x → Exprs v xs →
      Blank u → Item ('(' :: (w ++ ',' :: (v ++ ',' :: (u ++ [')'])))) (.tuple (x :: xs))

/-- A literal with blanks around it. -/
inductive Expr : List Char → Node → Prop
  | blanks {u w v : List Char} {x : Node} : Blank u → Item w x → Blank v →
      Expr (u ++ (w ++ v)) x

/-- One expression or more, with commas between them. -/
inductive Exprs : List Char → List Node → Prop
  | one {w : List Char} {x : Node} : Expr w x → Exprs w [x]
  | cons {w v : List Char} {x : Node} {xs : List Node} : Expr w x → Exprs v xs →
      Exprs (w ++ ',' :: v) (x :: xs)

/-- One entry or more, each a key, a colon and a value, with commas between them. -/
inductive Entries : List Char → List (Node × Node) → Prop
  | one {w v : List Char} {k x : Node} : Expr w k → Expr v x → Entries (w ++ ':' :: v) [(k, x)]
  | cons {w v t : List Char} {k x : Node} {es : List (Node × Node)} : Expr w k → Expr v x →
      Entries t es → Entries (w ++ ':' :: (v ++ ',' :: t)) ((k, x) :: es)

end

/-- A literal is an expression. -/
theorem Item.toExpr {w : List Char} {x : Node} (h : Item w x) : Expr w x := by
  have hnil : Blank [] := nofun
  simpa using Expr.blanks hnil h hnil

/-- A sequence of expressions is not empty. -/
theorem Exprs.ne_nil {w : List Char} {xs : List Node} (h : Exprs w xs) : xs ≠ [] := by
  cases h <;> exact List.cons_ne_nil _ _

/-! ## 3. First characters -/

/-- The characters that may follow an expression inside a compound. -/
def isStop (c : Char) : Bool :=
  c == ',' || c == ':' || c == ')' || c == ']' || c == '}'

theorem isBlank_of_isStop {c : Char} (h : isStop c = true) : Text.isBlank c = false := by
  simp only [isStop, Bool.or_eq_true, beq_iff_eq] at h
  rcases h with (((rfl | rfl) | rfl) | rfl) | rfl <;> rfl

/-- The text ends, or goes on with a character that may follow an expression. -/
def Follows (s : List Char) : Prop :=
  ∀ c ∈ s.head?, isStop c = true

/-- The character neither is a blank nor may it follow an expression. -/
def Begins (c : Char) : Prop :=
  Text.isBlank c = false ∧ isStop c = false

instance (c : Char) : Decidable (Begins c) :=
  inferInstanceAs (Decidable (_ ∧ _))

theorem Follows.cons {c : Char} (h : isStop c = true) (s : List Char) : Follows (c :: s) := by
  rintro d hd
  obtain rfl : c = d := by simpa using hd
  exact h

/-- The characters that a number may start with. -/
def numberStarts : List Char :=
  ['+', '-', '.', '0', '1', '2', '3', '4', '5', '6', '7', '8', '9']

theorem mem_numberStarts {c : Char} (h : isSign c = true ∨ isMantissaChar c = true) :
    c ∈ numberStarts := by
  have hdigit : c.isDigit = true → c ∈ numberStarts := by
    intro hc
    simp only [Char.isDigit, Bool.and_eq_true, decide_eq_true_eq, ge_iff_le,
      UInt32.le_iff_toNat_le] at hc
    have hval : c = Char.ofNat c.toNat := (Char.ofNat_toNat c).symm
    have hlow : 48 ≤ c.toNat := hc.1
    have hhigh : c.toNat ≤ 57 := hc.2
    rw [hval]
    interval_cases c.toNat <;> decide
  simp only [isSign, isMantissaChar, Bool.or_eq_true, beq_iff_eq] at h
  rcases h with (rfl | rfl) | (hc | rfl)
  · decide
  · decide
  · exact hdigit hc
  · decide

/-- Signs, digits, the point and the marks of exponents, one by one. -/
theorem mem_floatChars {c : Char} (h : isFloatChar c = true) : c ∈ 'e' :: 'E' :: numberStarts := by
  simp only [isFloatChar, Bool.or_eq_true] at h
  rcases h with (h | h) | h
  · exact List.mem_cons_of_mem _ (List.mem_cons_of_mem _ (mem_numberStarts (Or.inr h)))
  · exact List.mem_cons_of_mem _ (List.mem_cons_of_mem _ (mem_numberStarts (Or.inl h)))
  · have h : c = 'e' ∨ c = 'E' := by simpa [isExponentMark] using h
    rcases h with rfl | rfl <;> decide

/-- What all starts of numbers have in common is found by trying each. -/
theorem forall_numberStart {P : Char → Prop} [DecidablePred P]
    (h : numberStarts.all (fun c => decide (P c)) = true) : ∀ c ∈ numberStarts, P c :=
  fun c hc => of_decide_eq_true (List.all_eq_true.mp h c hc)

theorem of_isFloatChar {P : Char → Prop} [DecidablePred P]
    (h : ('e' :: 'E' :: numberStarts).all (fun c => decide (P c)) = true) {c : Char}
    (hc : isFloatChar c = true) : P c :=
  of_decide_eq_true (List.all_eq_true.mp h c (mem_floatChars hc))

theorem begins_of_isFloatChar {c : Char} (h : isFloatChar c = true) : Begins c :=
  of_isFloatChar (P := Begins) (by decide) h

/-- **A literal starts with a character that no expression ends before.** -/
theorem Item.exists_head {w : List Char} {x : Node} (h : Item w x) :
    ∃ c t, w = c :: t ∧ Begins c := by
  have hnumber : ∀ c ∈ numberStarts, Begins c := forall_numberStart (by decide)
  have hnumeral : ∀ {x : Numeral} {s : List Char}, x.WellFormed →
      ∃ c t, x.text ++ s = c :: t ∧ Begins c := by
    intro x s hx
    obtain ⟨c, t, ht, hc⟩ := Numeral.exists_head hx
    exact ⟨c, t ++ s, by rw [ht]; rfl, hnumber c (mem_numberStarts hc)⟩
  cases h with
  | string hq _ => rcases hq with rfl | rfl <;> exact ⟨_, _, rfl, by decide⟩
  | @integer minus ds hds =>
    cases minus with
    | true => exact ⟨'-', ds, rfl, by decide⟩
    | false =>
      obtain ⟨c, t, rfl⟩ := List.exists_cons_of_ne_nil hds.1
      have hc := Numeral.isMantissaChar_of_isDigit (hds.2 c List.mem_cons_self)
      exact ⟨c, t, rfl, hnumber c (mem_numberStarts (Or.inr hc))⟩
  | float hx _ _ => simpa using hnumeral (s := []) hx
  | imaginary hx => exact hnumeral hx
  | _ => exact ⟨_, _, rfl, by decide⟩

/-! ## 4. Blanks in front -/

theorem Blank.append {u v : List Char} (hu : Blank u) (hv : Blank v) : Blank (u ++ v) :=
  fun c hc => (List.mem_append.mp hc).elim (hu c) (hv c)

/-- Blanks in front of an expression belong to it. -/
theorem Expr.blank_append {u w : List Char} {x : Node} (hu : Blank u) (h : Expr w x) :
    Expr (u ++ w) x := by
  cases h with
  | @blanks u' w v x hu' hw hv =>
    rw [← List.append_assoc]
    exact .blanks (Blank.append hu hu') hw hv

theorem Exprs.blank_append {u w : List Char} {xs : List Node} (hu : Blank u) (h : Exprs w xs) :
    Exprs (u ++ w) xs := by
  cases h with
  | one hx => exact .one (hx.blank_append hu)
  | cons hx hxs =>
    rw [← List.append_assoc]
    exact .cons (hx.blank_append hu) hxs

theorem Entries.blank_append {u w : List Char} {es : List (Node × Node)} (hu : Blank u)
    (h : Entries w es) : Entries (u ++ w) es := by
  cases h with
  | one hk hx =>
    rw [← List.append_assoc]
    exact .one (hk.blank_append hu) hx
  | cons hk hx hes =>
    rw [← List.append_assoc]
    exact .cons (hk.blank_append hu) hx hes

end Literals.Grammar
