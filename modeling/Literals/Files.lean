/-
# Files and the search for a configuration

A `World` is what a command may ask of its surroundings: which directory it works in, what stands
at a place, and what comes in on standard input.  Places are lists of names from the root.

**The configuration that counts is the nearest one**: `nearest?` looks into the directory it starts
from, then into the one above, up to the root, and takes whatever stands under the file's name.
-/
import Literals.Settings

namespace Literals

/-! ## 1. Places -/

/-- A place in a file system: the names from the root down. -/
abbrev Place := List String

/-- What may stand at a place. -/
inductive Entry where
  | file (bytes : List UInt8)
  | directory

/-- Why a file cannot be read. -/
inductive AccessError where
  | notFound
  | notADirectory
  | isADirectory
deriving DecidableEq, Repr

/-- The surroundings of a command. -/
structure World (m : Type → Type) where
  workingDirectory : Place
  look : Place → m (Option Entry)
  input : m (List UInt8)

/-- A path as it is written: whether it starts at the root, and its names. -/
structure WrittenPath where
  absolute : Bool
  names : List String

/-- A written path taken apart; empty names and single points mean nothing. -/
def WrittenPath.ofString (s : String) : WrittenPath :=
  ⟨s.startsWith "/", (s.splitOn "/").filter fun n => n ≠ "" ∧ n ≠ "."⟩

/-- The place that names lead to from another one, going by the names alone. -/
def Place.follow (start : Place) (names : List String) : Place :=
  names.foldl (fun p n => if n = ".." then p.dropLast else p ++ [n]) start

/-- The place of a path, going by its names alone. -/
def WrittenPath.resolve (p : WrittenPath) (workingDirectory : Place) : Place :=
  Place.follow (if p.absolute then [] else workingDirectory) p.names

/-! ## 2. Access -/

namespace World

variable {m : Type → Type} [Monad m]

/-- What stands where names lead to from a directory; each name but the last must be that of a
directory. -/
def walk (w : World m) : Place → List String → m (Except AccessError Entry)
  | _, [] => pure (.ok .directory)
  | here, name :: names =>
    if name = ".." then walk w here.dropLast names
    else do
      match ← w.look (here ++ [name]) with
      | none => pure (.error .notFound)
      | some .directory => walk w (here ++ [name]) names
      | some (.file bytes) =>
        pure (if names.isEmpty then .ok (.file bytes) else .error .notADirectory)

/-- What stands at a path. -/
def find (w : World m) (path : String) : m (Except AccessError Entry) :=
  let p := WrittenPath.ofString path
  w.walk (if p.absolute then [] else w.workingDirectory) p.names

/-- The bytes of the file at a path. -/
def readFile (w : World m) (path : String) : m (Except AccessError (List UInt8)) := do
  match ← w.find path with
  | .error e => pure (.error e)
  | .ok .directory => pure (.error .isADirectory)
  | .ok (.file bytes) => pure (.ok bytes)

/-! ## 3. The configuration -/

/-- The name of configuration files. -/
def configurationName : String :=
  "literaltree.toml"

/-- The text of the error that no configuration was found. -/
def notFoundMessage : String :=
  "No " ++ configurationName ++ " found in any parent directory"

/-- The nearest configuration on the way from a directory, whose names are given last first, up to
the root. -/
def nearestAbove? (w : World m) : List String → m (Option (Place × Entry))
  | [] => do
    let place := [configurationName]
    pure ((← w.look place).map fun e => (place, e))
  | name :: above => do
    let place := (name :: above).reverse ++ [configurationName]
    match ← w.look place with
    | some e => pure (some (place, e))
    | none => nearestAbove? w above

/-- The nearest configuration for a place; a file counts as its directory. -/
def nearest? (w : World m) (start : Place) : m (Option (Place × Entry)) := do
  match ← w.look start with
  | some (.file _) => w.nearestAbove? start.dropLast.reverse
  | _ => w.nearestAbove? start.reverse

end World

/-- Why there are no settings: their file cannot be read or does not describe any. -/
inductive LoadError where
  | access (error : AccessError)
  | settings (error : SettingsError)

/-- The settings that stand at a place. -/
def Entry.settings : Entry → Except LoadError Settings
  | .directory => .error (.access .isADirectory)
  | .file bytes =>
    match Settings.ofBytes bytes with
    | .ok s => .ok s
    | .error e => .error (.settings e)

/-- The settings for a place: those of the nearest configuration, or the defaults where there is
none. -/
def World.discover {m : Type → Type} [Monad m] (w : World m) (start : Place) :
    m (Except LoadError Settings) := do
  match ← w.nearest? start with
  | none => pure (.ok .default)
  | some (_, e) => pure e.settings

/-! ## 4. Recorded surroundings -/

/-- A file tree: what stands at each of the places listed.  The directories on the way to a listed
place exist too. -/
abbrev FileTree := List (Place × Entry)

/-- What stands at a place of a file tree. -/
def FileTree.look (t : FileTree) (p : Place) : Option Entry :=
  match t.find? (fun e => e.1 == p) with
  | some e => some e.2
  | none => if p = [] ∨ t.any (fun e => p.isPrefixOf e.1) then some .directory else none

/-- A world of recorded files, whose input is read once. -/
def World.recorded (t : FileTree) (workingDirectory : Place) : World (StateM (List UInt8)) where
  workingDirectory := workingDirectory
  look p := pure (t.look p)
  input := do
    let bytes ← get
    set ([] : List UInt8)
    pure bytes

end Literals
