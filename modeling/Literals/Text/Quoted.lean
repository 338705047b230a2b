/-
# Quoted strings as the literal language writes them

Two tables and two functions.  Writing uses single quotes and escapes nine characters; reading
accepts either quote, knows ten escapes and lets every other escaped character stand for itself.

* **reading a written character gives it back** (`unescapeLetter_escapeLetter`);
* **what is unescaped is what was escaped** (`unescape_flatMap_escape`).
-/

namespace Literals.Text.Quoted

/-! ## 1. Writing -/

/-- The letter that follows the backslash where a character is written escaped. -/
def escapeLetter? : Char → Option Char
  | '\\' => some '\\'
  | '\'' => some '\''
  | '\x07' => some 'a'
  | '\x08' => some 'b'
  | '\x0c' => some 'f'
  | '\n' => some 'n'
  | '\r' => some 'r'
  | '\t' => some 't'
  | '\x0b' => some 'v'
  | _ => none

/-- A character as it is written between single quotes. -/
def escape (c : Char) : List Char :=
  match escapeLetter? c with
  | some e => ['\\', e]
  | none => [c]

/-- A text in single quotes. -/
def encode (s : List Char) : List Char :=
  '\'' :: (s.flatMap escape ++ ['\''])

/-- A text in single quotes. -/
def quote (s : String) : String :=
  String.ofList (encode s.toList)

/-! ## 2. Reading -/

/-- The character that a backslash and the given character stand for. -/
def unescapeLetter : Char → Char
  | 'a' => '\x07'
  | 'b' => '\x08'
  | 'f' => '\x0c'
  | 'n' => '\n'
  | 'r' => '\r'
  | 't' => '\t'
  | 'v' => '\x0b'
  | c => c

/-- The text that the raw characters between two quotes stand for. -/
def unescape : List Char → List Char
  | [] => []
  | '\\' :: e :: rest => unescapeLetter e :: unescape rest
  | c :: rest => c :: unescape rest

/-! ## 3. The two tables agree -/

theorem unescapeLetter_escapeLetter {c e : Char} (h : escapeLetter? c = some e) :
    unescapeLetter e = c := by
  unfold escapeLetter? at h
  split at h <;> first | (injection h with h; subst h; rfl) | cases h

theorem unescape_escape_append (c : Char) (s : List Char) :
    unescape (escape c ++ s) = c :: unescape s := by
  unfold escape
  split
  next e h =>
    simp [unescape, unescapeLetter_escapeLetter h]
  next h =>
    have hc : c ≠ '\\' := by rintro rfl; cases h
    cases s with
    | nil => simp [unescape]
    | cons d t => simp [unescape, hc]

theorem unescape_flatMap_escape (s : List Char) : unescape (s.flatMap escape) = s := by
  induction s with
  | nil => rfl
  | cons c s ih => rw [List.flatMap_cons, unescape_escape_append, ih]

end Literals.Text.Quoted
