/-
# What is said about folding

The texts of fold errors, and whether a text about a value is determined at all: **a set with two
or more elements has no order of its own to be shown in**.
-/
import Literals.Value.Fold
import Literals.Value.Text

namespace Literals

/-- The text of a fold error.  The value that it shows has a text: an error about any other is
`overlongInteger`. -/
def FoldError.message : FoldError → String
  | .unhashableElement v => "unhashable set element: " ++ v.text
  | .unhashableKey k => "unhashable dict key: " ++ k.text
  | .unfoldable => "cannot fold SequenceNode"
  | .overlongInteger => overlongText

/-- The text of a message about a value that no scalar holds.  The value is taken to have a text
(`Value.writable`). -/
def Value.notAScalarMessage (v : Value) : String :=
  "not a scalar literal value: " ++ v.text

namespace Node

mutual

/-- Whether a tree holds no set of two or more elements. -/
def hasFixedOrder : Node → Bool
  | .keyValue k v => k.hasFixedOrder && v.hasFixedOrder
  | .sequence shape xs => (shape != .set || xs.length ≤ 1) && allFixedOrder xs
  | _ => true

/-- Whether several trees hold no set of two or more elements. -/
def allFixedOrder : List Node → Bool
  | [] => true
  | x :: xs => x.hasFixedOrder && allFixedOrder xs

end

end Node

end Literals
