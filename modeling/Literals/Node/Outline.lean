/-
# Outlines

A tree as indented lines, one for each node; **an entry names its key and its value on lines of
their own**, and an empty sequence says so.
-/
import Literals.Node.Basic
import Literals.Value.Text

namespace Literals

open Number

/-- The payload of a scalar as it is shown. -/
def Scalar.shown : Scalar → String
  | .int n => shownInt n
  | .long n => shownInt n
  | .float x => shownFloat x
  | .decimal d => shownDecimal d
  | .bool b => shownBool b
  | .str s => Text.shown s

/-- The blanks before a line at some depth. -/
def indent (depth : Nat) : String :=
  String.ofList (List.replicate (2 * depth) ' ')

namespace Node

mutual

/-- The lines of the outline of a tree at some depth. -/
def outline (depth : Nat) : Node → List String
  | .scalar s => [indent depth ++ "ScalarNode " ++ s.kind.name ++ ": " ++ s.shown]
  | .none => [indent depth ++ "NoneNode"]
  | .complex re im =>
    [indent depth ++ "ComplexNumberNode: real=" ++ shownFloat re ++ " imaginary=" ++ shownFloat im]
  | .keyValue k v =>
    (indent depth ++ "KeyValueNode") :: (indent depth ++ "  key:") ::
      (outline (depth + 2) k ++ (indent depth ++ "  value:") :: outline (depth + 2) v)
  | .sequence shape xs =>
    let name := indent depth ++ (Node.sequence shape []).typeName
    if xs.isEmpty then [name ++ ": []"] else name :: outlineAll (depth + 1) xs

/-- The lines of the outlines of several trees. -/
def outlineAll (depth : Nat) : List Node → List String
  | [] => []
  | x :: xs => outline depth x ++ outlineAll depth xs

end

end Node

end Literals
