/-
# TOML values

The seven kinds of values of a TOML document, and how each is shown in a message.  **A table lists
its keys in the order in which they first appeared.**
-/
import Literals.Value.Text

namespace Literals.Toml

open Number

/-! ## 1. Dates and times -/

/-- A time of day, to the microsecond. -/
structure Clock where
  hour : Nat
  minute : Nat
  second : Nat
  micro : Nat
deriving DecidableEq, Repr

/-- A day of the calendar. -/
structure Day where
  year : Nat
  month : Nat
  day : Nat
deriving DecidableEq, Repr

/-- The number of days of a month. -/
def monthLength (year month : Nat) : Nat :=
  if month = 2 then
    if year % 4 = 0 ∧ (year % 100 ≠ 0 ∨ year % 400 = 0) then 29 else 28
  else if month = 4 ∨ month = 6 ∨ month = 9 ∨ month = 11 then 30
  else 31

/-- Whether the calendar has such a day; it starts with the year one. -/
def Day.exists? (d : Day) : Bool :=
  1 ≤ d.year && 1 ≤ d.month && d.month ≤ 12 && 1 ≤ d.day && d.day ≤ monthLength d.year d.month

/-- A date, a time, or both with an offset in minutes or none. -/
inductive Moment where
  | date (day : Day)
  | time (clock : Clock)
  | dateTime (day : Day) (clock : Clock) (offset : Option Int)
deriving DecidableEq, Repr

/-- Numbers as arguments, separated by commas. -/
def argumentText (ns : List Int) : String :=
  ", ".intercalate (ns.map toString)

/-- The parts of a time of day that are shown: seconds only where they or the microseconds count,
microseconds only where they do. -/
def Clock.shownParts (c : Clock) : List Int :=
  [(c.hour : Int), c.minute] ++
    (if c.second = 0 ∧ c.micro = 0 then [] else [(c.second : Int)]) ++
    (if c.micro = 0 then [] else [(c.micro : Int)])

/-- The parts of a day. -/
def Day.shownParts (d : Day) : List Int :=
  [(d.year : Int), d.month, d.day]

/-- An offset as it is shown: whole days rounded down, and seconds. -/
def shownOffset (minutes : Int) : String :=
  if minutes = 0 then "datetime.timezone.utc"
  else
    let seconds := minutes * 60
    let days := if seconds < 0 then "days=-1, " else ""
    "datetime.timezone(datetime.timedelta(" ++ days ++ "seconds=" ++
      toString (if seconds < 0 then seconds + 86400 else seconds) ++ "))"

/-- A moment as it is shown. -/
def Moment.text : Moment → String
  | .date d => "datetime.date(" ++ argumentText d.shownParts ++ ")"
  | .time c => "datetime.time(" ++ argumentText c.shownParts ++ ")"
  | .dateTime d c offset =>
    let zone := (offset.map fun o => ", tzinfo=" ++ shownOffset o).getD ""
    "datetime.datetime(" ++ argumentText (d.shownParts ++ c.shownParts) ++ zone ++ ")"

/-! ## 2. Values -/

/-- A TOML value. -/
inductive Value where
  | bool (b : Bool)
  | integer (n : Int)
  | float (x : Binary64)
  | string (s : String)
  | moment (t : Moment)
  | array (elements : List Value)
  | table (entries : List (String × Value))

/-- The entries of a table, in order of appearance. -/
abbrev Table := List (String × Value)

/-- The value under a key. -/
def Table.value? (t : Table) (key : String) : Option Value :=
  Keyed.get? (fun a b => a == b) key t

/-- Sets the value under a key: in place where the key is known, else at the end. -/
def Table.put (t : Table) (key : String) (value : Value) : Table :=
  Keyed.put (fun a b => a == b) key value t

namespace Value

mutual

/-- A value as it is shown. -/
def text : Value → String
  | .bool b => shownBool b
  | .integer n => shownInt n
  | .float x => shownFloat x
  | .string s => Text.shown s
  | .moment t => t.text
  | .array [] => "[]"
  | .array (x :: xs) => "[" ++ x.text ++ continued xs ++ "]"
  | .table [] => "\x7b\x7d"
  | .table ((k, v) :: es) =>
    "\x7b" ++ Text.shown k ++ ": " ++ v.text ++ continuedEntries es ++ "\x7d"

/-- The texts of several values, each with a comma before it. -/
def continued : List Value → String
  | [] => ""
  | x :: xs => ", " ++ x.text ++ continued xs

/-- The texts of several entries, each with a comma before it. -/
def continuedEntries : List (String × Value) → String
  | [] => ""
  | (k, v) :: es => ", " ++ Text.shown k ++ ": " ++ v.text ++ continuedEntries es

end

mutual

/-- Whether a value can be shown: no integer in it has more than `longestInteger` digits.  One that
was written in another base than ten may have more. -/
def writable : Value → Bool
  | .integer n => (digits n.natAbs).length ≤ longestInteger
  | .array xs => allWritable xs
  | .table es => entriesWritable es
  | _ => true

/-- Whether all of several values can be shown. -/
def allWritable : List Value → Bool
  | [] => true
  | x :: xs => x.writable && allWritable xs

/-- Whether the values of several entries can be shown. -/
def entriesWritable : List (String × Value) → Bool
  | [] => true
  | (_, v) :: es => v.writable && entriesWritable es

end

end Value

end Literals.Toml
