/-
# Blanks and line breaks

Two classes of characters, and the cutting of a text into lines.  **Blanks may stand between the
parts of a literal; line breaks end the lines that a diagnostic shows.**  Every line break is a
blank (`isBlank_of_isLineBreak`), and U+001F, the space and a dozen wider spaces are blanks that
break no line.
-/

namespace Literals.Text

/-! ## 1. The two classes -/

/-- The blanks: the ASCII ones, the four separators U+001C to U+001F, and the spaces of Unicode. -/
def isBlank (c : Char) : Bool :=
  let n := c.toNat
  (9 ≤ n && n ≤ 13) || (0x1C ≤ n && n ≤ 0x20) || n == 0x85 || n == 0xA0 || n == 0x1680 ||
    (0x2000 ≤ n && n ≤ 0x200A) || n == 0x2028 || n == 0x2029 || n == 0x202F || n == 0x205F ||
    n == 0x3000

/-- The characters that end a line. -/
def isLineBreak (c : Char) : Bool :=
  let n := c.toNat
  (10 ≤ n && n ≤ 13) || (0x1C ≤ n && n ≤ 0x1E) || n == 0x85 || n == 0x2028 || n == 0x2029

theorem isBlank_of_isLineBreak {c : Char} (h : isLineBreak c = true) : isBlank c = true := by
  simp only [isLineBreak, isBlank, Bool.or_eq_true, Bool.and_eq_true, decide_eq_true_eq,
    beq_iff_eq] at h ⊢
  omega

/-! ## 2. Lines -/

/-- A line: its text, and the break that ends it (empty for an unfinished last line). -/
structure Line where
  body : List Char
  ending : List Char
deriving DecidableEq, Repr

/-- The line as it stands in the text, with its break. -/
def Line.whole (l : Line) : List Char :=
  l.body ++ l.ending

/-- Puts a character in front of the first line. -/
def Line.pushFirst (c : Char) : List Line → List Line
  | [] => [⟨[c], []⟩]
  | l :: ls => ⟨c :: l.body, l.ending⟩ :: ls

/-- The lines of a text.  A carriage return and a line feed right after it are one break, and no
empty line follows a final break. -/
def lines : List Char → List Line
  | [] => []
  | '\r' :: '\n' :: rest => ⟨[], ['\r', '\n']⟩ :: lines rest
  | c :: rest => if isLineBreak c then ⟨[], [c]⟩ :: lines rest else Line.pushFirst c (lines rest)

theorem flatMap_whole_pushFirst (c : Char) (ls : List Line) :
    (Line.pushFirst c ls).flatMap Line.whole = c :: ls.flatMap Line.whole := by
  cases ls <;> rfl

/-- **Cutting loses nothing**: the lines with their breaks make up the text again. -/
theorem flatMap_whole_lines (s : List Char) : (lines s).flatMap Line.whole = s := by
  fun_induction lines s with
  | case1 => rfl
  | case2 rest ih => simp [Line.whole, ih]
  | case3 c rest _ hb ih => simp [Line.whole, ih]
  | case4 c rest _ hb ih => rw [flatMap_whole_pushFirst, ih]

end Literals.Text
