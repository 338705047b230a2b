/-
# TOML documents

A document is a list of statements: pairs, table headers and headers of tables in arrays.  Reading
keeps the table built so far and `Mark`s on paths: a path is *frozen* when an inline value was
stored there, with everything below it, and *opened* when a header or a dotted key has made a table
there, which no header may open again.  **A path is never given a second value.**
-/
import Literals.Toml.Lexical
import Literals.Text.Utf8

namespace Literals.Toml

/-! ## 1. Paths -/

/-- A path of keys from the root. -/
abbrev Path := List String

/-- What may be remembered about a path. -/
inductive MarkKind where
  | frozen
  | opened
deriving DecidableEq, Repr

/-- A path and what is remembered about it; a frozen path stands for all paths below it too. -/
structure Mark where
  path : Path
  kind : MarkKind
deriving DecidableEq, Repr

/-- The marks made so far. -/
abbrev Marks := List Mark

/-- Whether a path is frozen, itself or by a path above it. -/
def Marks.isFrozen (ms : Marks) (p : Path) : Bool :=
  ms.any fun m => m.kind == .frozen && m.path.isPrefixOf p

/-- Whether a path is opened. -/
def Marks.isOpened (ms : Marks) (p : Path) : Bool :=
  ms.any fun m => m.kind == .opened && m.path == p

/-- The marks without those on a path and below it. -/
def Marks.clear (ms : Marks) (p : Path) : Marks :=
  ms.filter fun m => !p.isPrefixOf m.path

/-! ## 2. Tables within tables -/

/-- Changes the table at a path, making the tables on the way that do not exist.  Where `intoArrays`,
an array on the way stands for its last element, which must be a table. -/
def modifyAt (intoArrays : Bool) (change : Table → Except Error Table) :
    Path → Table → Except Error Table
  | [], t => change t
  | k :: ks, t =>
    match t.value? k with
    | none => (modifyAt intoArrays change ks []).map fun sub => t.put k (.table sub)
    | some (.table sub) =>
      (modifyAt intoArrays change ks sub).map fun sub => t.put k (.table sub)
    | some (.array xs) =>
      match intoArrays, xs.getLast? with
      | true, some (.table sub) =>
        (modifyAt intoArrays change ks sub).map fun sub =>
          t.put k (.array (xs.dropLast ++ [.table sub]))
      | _, _ => .error .malformed
    | some _ => .error .malformed

/-- Stores a value under a key that the table does not have yet. -/
def store (k : String) (v : Value) (t : Table) : Except Error Table :=
  if (t.value? k).isSome then .error .malformed else .ok (t.put k v)

/-- Adds an empty table to the array under a key, which may be made here. -/
def appendTable (k : String) (t : Table) : Except Error Table :=
  match t.value? k with
  | none => .ok (t.put k (.array [.table []]))
  | some (.array xs) => .ok (t.put k (.array (xs ++ [.table []])))
  | some _ => .error .malformed

/-- All but the last part of a key, and the last. -/
def splitKey (key : Path) : Path × String :=
  (key.dropLast, key.getLastD "")

/-- Whether a value is inline: an array or a table. -/
def Value.isInline : Value → Bool
  | .array _ => true
  | .table _ => true
  | _ => false

/-! ## 3. Values -/

mutual

/-- A value; nesting is at most `fuel` deep. -/
def value : Nat → List Char → Except Error (Rest Value)
  | 0, _ => .error .malformed
  | fuel + 1, s =>
    match s with
    | '[' :: rest => do
      let rest ← skipArrayBlanks rest.length rest
      match rest with
      | ']' :: rest => .ok (.array [], rest)
      | rest =>
        let (xs, rest) ← arrayItems fuel rest
        .ok (.array xs, rest)
    | '\x7b' :: rest =>
      match skipBlanks rest with
      | '\x7d' :: rest => .ok (.table [], rest)
      | rest => do
        let (t, rest) ← inlineEntries fuel [] [] rest
        .ok (.table t, rest)
    | '"' :: _ => (stringValue s).map fun r => (.string (String.ofList r.1), r.2)
    | '\'' :: _ => (stringValue s).map fun r => (.string (String.ofList r.1), r.2)
    | s =>
      if ['t', 'r', 'u', 'e'].isPrefixOf s then .ok (.bool true, s.drop 4)
      else if ['f', 'a', 'l', 's', 'e'].isPrefixOf s then .ok (.bool false, s.drop 5)
      else
        match (moment? s).or (number? s) with
        | some r => r
        | none =>
          match namedFloat? s with
          | some (x, rest) => .ok (.float x, rest)
          | none => .error .malformed

/-- The elements of an array up to its closing bracket, which is read. -/
def arrayItems : Nat → List Char → Except Error (Rest (List Value))
  | 0, _ => .error .malformed
  | fuel + 1, s => do
    let (x, rest) ← value fuel s
    let rest ← skipArrayBlanks rest.length rest
    match rest with
    | ']' :: rest => .ok ([x], rest)
    | ',' :: rest =>
      let rest ← skipArrayBlanks rest.length rest
      match rest with
      | ']' :: rest => .ok ([x], rest)
      | rest =>
        let (xs, rest) ← arrayItems fuel rest
        .ok (x :: xs, rest)
    | _ => .error .malformed

/-- The entries of an inline table up to its closing bracket, which is read. -/
def inlineEntries : Nat → Table → Marks → List Char → Except Error (Rest Table)
  | 0, _, _, _ => .error .malformed
  | fuel + 1, t, marks, s => do
    let (k, v, rest) ← pair fuel s
    if marks.isFrozen k then .error .malformed
    else
      let (parent, stem) := splitKey k
      let t ← modifyAt false (store stem v) parent t
      match skipBlanks rest with
      | '\x7d' :: rest => .ok (t, rest)
      | ',' :: rest =>
        let marks := if v.isInline then ⟨k, .frozen⟩ :: marks else marks
        inlineEntries fuel t marks (skipBlanks rest)
      | _ => .error .malformed

/-- A key, an equals sign and a value. -/
def pair : Nat → List Char → Except Error (Path × Value × List Char)
  | 0, _ => .error .malformed
  | fuel + 1, s => do
    let (k, rest) ← key s
    match rest with
    | '=' :: rest =>
      let (v, rest) ← value fuel (skipBlanks rest)
      .ok (k, v, rest)
    | _ => .error .malformed

end

/-! ## 4. Statements -/

/-- A document read in part: the table so far, the marks, the paths that the pairs since the last
header have opened, and the path of that header. -/
structure Builder where
  table : Table
  marks : Marks
  pending : List Path
  header : Path

namespace Builder

/-- Nothing read. -/
def empty : Builder :=
  ⟨[], [], [], []⟩

/-- Takes over the pending paths as opened ones. -/
def settle (b : Builder) : Builder :=
  { b with marks := b.pending.map (⟨·, .opened⟩) ++ b.marks, pending := [] }

/-- The proper parts of a key from its start, below the header. -/
def openedBy (header key : Path) : List Path :=
  (List.range' 1 (key.length - 1)).map fun i => header ++ key.take i

/-- Adds a pair. -/
def addPair (b : Builder) (k : Path) (v : Value) : Except Error Builder :=
  let opened := openedBy b.header k
  let (parent, stem) := splitKey k
  if opened.any b.marks.isOpened || b.marks.isFrozen (b.header ++ parent) then .error .malformed
  else
    (modifyAt true (store stem v) (b.header ++ parent) b.table).map fun t =>
      { b with
        table := t
        marks := if v.isInline then ⟨b.header ++ k, .frozen⟩ :: b.marks else b.marks
        pending := opened ++ b.pending }

/-- Opens the table that a header names. -/
def openTable (b : Builder) (k : Path) : Except Error Builder :=
  if b.marks.isOpened k || b.marks.isFrozen k then .error .malformed
  else
    (modifyAt true .ok k b.table).map fun t =>
      { b with table := t, marks := ⟨k, .opened⟩ :: b.marks, header := k }

/-- Adds a table to the array that a header names. -/
def openArrayTable (b : Builder) (k : Path) : Except Error Builder :=
  if b.marks.isFrozen k then .error .malformed
  else
    let (parent, stem) := splitKey k
    (modifyAt true (appendTable stem) parent b.table).map fun t =>
      { b with table := t, marks := ⟨k, .opened⟩ :: b.marks.clear k, header := k }

end Builder

/-- What must follow a statement on its line: blanks, a comment, and the end of the line or of the
document. -/
def endOfLine (s : List Char) : Except Error (List Char) := do
  match ← skipComment (skipBlanks s) with
  | [] => .ok []
  | c :: rest => if c = '\n' then .ok rest else .error .malformed

/-- One statement, which starts with the given text. -/
def statement (b : Builder) (s : List Char) : Except Error (Builder × List Char) := do
  match s with
  | '[' :: '[' :: rest =>
    let (k, rest) ← key (skipBlanks rest)
    let b ← b.settle.openArrayTable k
    match rest with
    | ']' :: ']' :: rest => .ok (b, rest)
    | _ => .error .malformed
  | '[' :: rest =>
    let (k, rest) ← key (skipBlanks rest)
    let b ← b.settle.openTable k
    match rest with
    | ']' :: rest => .ok (b, rest)
    | _ => .error .malformed
  | s =>
    let (k, v, rest) ← pair (2 * s.length + 2) s
    let b ← b.addPair k v
    .ok (b, rest)

/-- The statements of a document, at most `count` of them. -/
def statements : Nat → Builder → List Char → Except Error Table
  | 0, b, _ => .ok b.table
  | count + 1, b, s =>
    match skipBlanks s with
    | [] => .ok b.table
    | '\n' :: rest => statements count b rest
    | '#' :: rest => do
      let rest ← endOfLine ('#' :: rest)
      statements count b rest
    | s => do
      let (b, rest) ← statement b s
      let rest ← endOfLine rest
      statements count b rest

/-- A carriage return and a line feed as one line feed. -/
def unifyBreaks : List Char → List Char
  | [] => []
  | '\r' :: '\n' :: rest => '\n' :: unifyBreaks rest
  | c :: rest => c :: unifyBreaks rest

/-- The table that a document describes. -/
def parse (s : List Char) : Except Error Table :=
  let s := unifyBreaks s
  statements (s.length + 1) .empty s

end Literals.Toml
