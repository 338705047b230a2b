/-
# Terminal styling

A styled text is a list of segments, each with the code that switches its style on or with none;
a segment with a style is always followed by the code that switches it off.  `strip` removes
control sequences from finished text: an escape, an opening bracket, any of `;?0123456789`, and
one ASCII letter.

**Stripping a sequence leaves what follows it** (`strip_sequence`).
-/

namespace Literals.Text.Ansi

/-- The escape character. -/
def esc : Char := '\x1b'

/-- The characters that may stand between the bracket and the letter of a sequence. -/
def isParameter (c : Char) : Bool :=
  c.isDigit || c == ';' || c == '?'

/-- What follows a control sequence, when the text after the escape is the rest of one. -/
def afterSequence? : List Char → Option (List Char)
  | '[' :: rest =>
    match rest.dropWhile isParameter with
    | c :: rest' => if c.isAlpha then some rest' else none
    | [] => none
  | _ => none

theorem afterSequence?_length {s r : List Char} (h : afterSequence? s = some r) :
    r.length < s.length := by
  unfold afterSequence? at h
  split at h
  next rest =>
    split at h
    next c rest' hd =>
      split at h
      · injection h with h
        subst h
        have := (List.dropWhile_suffix isParameter (l := rest)).length_le
        rw [hd] at this
        simp only [List.length_cons] at this ⊢
        omega
      · cases h
    · cases h
  · cases h

/-- The text without its control sequences. -/
def strip : List Char → List Char
  | [] => []
  | c :: rest =>
    if c = esc then
      match h : afterSequence? rest with
      | some rest' =>
        have := afterSequence?_length h
        strip rest'
      | none => c :: strip rest
    else c :: strip rest
termination_by s => s.length

/-- The text without its control sequences. -/
def plain (s : String) : String :=
  String.ofList (strip s.toList)

theorem strip_sequence {s r : List Char} (h : afterSequence? s = some r) :
    strip (esc :: s) = strip r := by
  rw [strip, if_pos rfl]
  split
  next r' h' => rw [h] at h'; injection h' with h'; rw [h']
  next h' => rw [h] at h'; cases h'

theorem strip_cons_of_ne {c : Char} (h : c ≠ esc) (s : List Char) :
    strip (c :: s) = c :: strip s := by
  rw [strip, if_neg h]

end Literals.Text.Ansi
