/-
# Reading bytes

Bytes are UTF-8 or nothing: **they are decoded before a single rule runs**, and every position is
counted in characters.
-/
import Literals.Reader.Session
import Literals.Text.Utf8
import Literals.Value.Fold

namespace Literals.Reader

/-- Why bytes cannot be read: they are no text, or the text is no literal. -/
inductive InputError where
  | undecodable (fault : Text.Utf8.Fault)
  | fault (fault : Fault)
deriving DecidableEq, Repr

/-- The text of the error about bytes that are no text. -/
def decodeMessage (f : Text.Utf8.Fault) : String :=
  "cannot decode input: " ++ f.message

/-- The text that bytes encode. -/
def decodeText (bytes : List UInt8) : Except InputError String :=
  match Text.Utf8.decode bytes with
  | .ok text => .ok (String.ofList text)
  | .error f => .error (.undecodable f)

/-- Reads the text that bytes encode as one expression. -/
def readBytes (bytes : List UInt8) (limit : Option Int) : Except InputError Tree :=
  match decodeText bytes with
  | .error e => .error e
  | .ok text =>
    match read text limit with
    | .ok t => .ok t
    | .error f => .error (.fault f)

/-! ## Evaluation -/

/-- Why a text has no value. -/
inductive EvalError where
  | input (error : InputError)
  | fold (error : FoldError)

/-- The value of the literal in a text. -/
def eval (text : String) (limit : Option Int) : Except EvalError Value :=
  match read text limit with
  | .error f => .error (.input (.fault f))
  | .ok t =>
    match t.fold with
    | .ok v => .ok v
    | .error e => .error (.fold e)

/-- The value of the literal in the text that bytes encode. -/
def evalBytes (bytes : List UInt8) (limit : Option Int) : Except EvalError Value :=
  match decodeText bytes with
  | .error e => .error (.input e)
  | .ok text => eval text limit

end Literals.Reader
