/-
# Diagnostics

A diagnostic is a coded message with labelled spans and notes.  It is laid out as lines of
segments, each with a style or none, and only then written with or without colour: **the two
renderings have the same segments**, and a style is switched off where its segment ends.
-/
import Literals.Source
import Literals.Reader.Cause
import Literals.Text.Ansi

namespace Literals

/-! ## 1. Styled lines -/

/-- The styles that diagnostics use. -/
inductive Style where
  | boldRed
  | boldBlue
  | bold
deriving DecidableEq, Repr

/-- The code that switches a style on. -/
def Style.code : Style → String
  | .boldRed => "\x1b[1;31m"
  | .boldBlue => "\x1b[1;34m"
  | .bold => "\x1b[1m"

/-- The code that switches all styles off. -/
def Style.reset : String :=
  "\x1b[0m"

/-- A piece of text with a style or none. -/
structure Segment where
  style : Option Style
  text : String
deriving DecidableEq, Repr

namespace Segment

/-- A piece of text without a style. -/
def bare (text : String) : Segment :=
  ⟨none, text⟩

/-- A piece of text in a style. -/
def styled (style : Style) (text : String) : Segment :=
  ⟨some style, text⟩

/-- The text of a segment, with the codes of its style where colour is wanted. -/
def render (color : Bool) (s : Segment) : String :=
  match s.style, color with
  | some style, true => style.code ++ s.text ++ Style.reset
  | _, _ => s.text

end Segment

/-- The text of a line of segments. -/
def renderLine (color : Bool) (line : List Segment) : String :=
  String.join (line.map (Segment.render color))

/-! ## 2. Diagnostics -/

/-- How grave a diagnostic is. -/
inductive Severity where
  | error
deriving DecidableEq, Repr

/-- The word for a severity. -/
def Severity.name : Severity → String
  | .error => "error"

/-- A span and what is to be said about it; nothing is said where the message is empty. -/
structure Label where
  span : Span
  message : String
deriving DecidableEq, Repr

/-- A message with its code, the spans it is about, and notes. -/
structure Diagnostic where
  severity : Severity
  code : String
  message : String
  labels : List Label
  notes : List String
deriving DecidableEq, Repr

/-- A text moved to the right end of a field of the given width. -/
def alignRight (width : Nat) (s : String) : String :=
  String.ofList (List.replicate (width - s.length) ' ') ++ s

namespace Diagnostic

/-- The style of a diagnostic's own words. -/
def accent (text : String) : Segment :=
  .styled .boldRed text

/-- The start of a line beside the source. -/
def gutter (text : String) : List Segment :=
  [.bare "  ", .styled .boldBlue text]

/-- The lines about one label: the place, the source line, the carets, and the label's message. -/
def labelLines (source : Source) (l : Label) : List (List Segment) :=
  let carets := (l.span.endColumn - l.span.startColumn + 1).toNat.max 1
  let padding := (l.span.startColumn - 1).toNat
  let place := gutter "-->" ++ [.bare (" " ++ l.span.text)]
  let shownLine := gutter (alignRight 4 (toString l.span.startLine) ++ " |") ++
    [.bare (" " ++ String.ofList (source.lineAt l.span.startLine))]
  let caretLine := gutter "   |" ++
    [.bare (" " ++ String.ofList (List.replicate padding ' ')),
      accent (String.ofList (List.replicate carets '^'))]
  let message :=
    if l.message = "" then [] else [gutter "   |" ++ [.bare "   ", accent l.message]]
  [place, gutter "   |", shownLine, caretLine] ++ message

/-- The lines of a diagnostic. -/
def lines (source : Source) (d : Diagnostic) : List (List Segment) :=
  [accent (d.severity.name ++ "[" ++ d.code ++ "]"), .styled .bold (": " ++ d.message)] ::
    (d.labels.flatMap (labelLines source) ++
      d.notes.map fun note => gutter "=" ++ [.bare (" note: " ++ note)])

/-- The text of a diagnostic. -/
def render (source : Source) (color : Bool) (d : Diagnostic) : String :=
  "\n".intercalate ((d.lines source).map (renderLine color))

end Diagnostic

/-- The diagnostic of an error: a label where the error has a position. -/
def Fault.diagnostic (f : Fault) (source : Source) : Diagnostic where
  severity := .error
  code := f.code
  message := f.reason
  labels := f.position.toList.map fun p => ⟨source.spanAt p, ""⟩
  notes := f.notes

end Literals
