/-
# Settings

Two limits and one choice, taken from the tables `parser` and `output` of a TOML document.  **A
limit is absent, or a non-negative integer, where zero means none**; `false` and a floating-point
zero count as zero too.  The choice is absent or a truth value.  The parser's settings are judged
before those of the output.
-/
import Literals.Toml.Document

namespace Literals

/-- The settings of a run: how deep literals may nest, how many bytes an input may have, and
whether colour is wanted. -/
structure Settings where
  maxDepth : Option Nat
  maxLength : Option Nat
  color : Bool
deriving DecidableEq, Repr

/-- Why a configuration is refused. -/
inductive SettingsError where
  | undecodable (fault : Text.Utf8.Fault)
  | document (error : Toml.Error)
  | notATable
  | badLimit (name : String) (value : Toml.Value)
  | badFlag (name : String) (value : Toml.Value)

namespace SettingsError

/-- What is said about a value that is not allowed: it is shown, where that can be done. -/
def about (v : Toml.Value) (said : String) : String :=
  if v.writable then said ++ ", got " ++ v.text else overlongText

/-- The text of an error, where it has one: a section that is no table has none. -/
def message? : SettingsError → Option String
  | .undecodable f => some f.message
  | .document .malformed => some "malformed document"
  | .document (.integerTooLong n) =>
    some ("Exceeds the limit (4300 digits) for integer string conversion: value has " ++
      toString n ++ " digits; use sys.set_int_max_str_digits() to increase the limit")
  | .notATable => none
  | .badLimit name v => some (about v (name ++ " must be a non-negative integer"))
  | .badFlag name v => some (about v (name ++ " must be true or false"))

end SettingsError

namespace Settings

/-- No limits, and colour. -/
def default : Settings :=
  ⟨none, none, true⟩

/-- Whether a value counts as zero. -/
def isZero : Toml.Value → Bool
  | .bool b => !b
  | .integer n => n == 0
  | .float x => x.eq .zero
  | _ => false

/-- A limit from the value under its key, if there is one. -/
def limit (name : String) : Option Toml.Value → Except SettingsError (Option Nat)
  | none => .ok none
  | some v =>
    if isZero v then .ok none
    else
      match v with
      | .integer n => if n < 0 then .error (.badLimit name v) else .ok (some n.toNat)
      | _ => .error (.badLimit name v)

/-- A choice from the value under its key, if there is one. -/
def flag (name : String) : Option Toml.Value → Except SettingsError Bool
  | none => .ok true
  | some (.bool b) => .ok b
  | some v => .error (.badFlag name v)

/-- The table under a key; an empty one where there is no such key. -/
def section? (t : Toml.Table) (key : String) : Except SettingsError Toml.Table :=
  match t.value? key with
  | none => .ok []
  | some (.table s) => .ok s
  | some _ => .error .notATable

/-- The settings that a document describes. -/
def ofTable (t : Toml.Table) : Except SettingsError Settings := do
  let parser ← section? t "parser"
  let maxDepth ← limit "parser.max_depth" (parser.value? "max_depth")
  let maxLength ← limit "parser.max_length" (parser.value? "max_length")
  let output ← section? t "output"
  let color ← flag "output.color" (output.value? "color")
  .ok ⟨maxDepth, maxLength, color⟩

/-- The settings in a file of the given bytes. -/
def ofBytes (bytes : List UInt8) : Except SettingsError Settings :=
  match Text.Utf8.decode bytes with
  | .error f => .error (.undecodable f)
  | .ok text =>
    match Toml.parse text with
    | .error e => .error (.document e)
    | .ok t => ofTable t

end Settings

end Literals
