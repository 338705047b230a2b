/-
# UTF-8 with a precise account of what is wrong

A decoder for the well-formed sequences of the Unicode standard, and nothing else: no overlong
forms, no surrogates, nothing above U+10FFFF.  The first byte of a character fixes the ranges of
the bytes that must follow (`continuation?`); the decoder walks the bytes with what it still
expects in hand.

**A fault names the bytes it is about**: a byte that cannot start a character, or the well-formed
start of a character that the next byte or the end of the data cuts off.
-/
import Literals.Text.Shown

namespace Literals.Text.Utf8

/-- What can be wrong with a sequence of bytes. -/
inductive Flaw where
  | badStart
  | badContinuation
  | cutShort
deriving DecidableEq, Repr

/-- A flaw, the offset of the first byte it concerns, and those bytes. -/
structure Fault where
  flaw : Flaw
  offset : Nat
  bytes : List UInt8
deriving DecidableEq, Repr

/-- The ranges of the bytes that must follow a first byte above 0x7F, with the bits that it
contributes itself; nothing for a byte that starts no character. -/
def continuation? (lead : UInt8) : Option (Nat × List (Nat × Nat)) :=
  let b := lead.toNat
  if b < 0xC2 then none
  else if b < 0xE0 then some (b - 0xC0, [(0x80, 0xBF)])
  else if b < 0xF0 then
    some (b - 0xE0, [(if b = 0xE0 then 0xA0 else 0x80, if b = 0xED then 0x9F else 0xBF),
      (0x80, 0xBF)])
  else if b < 0xF5 then
    some (b - 0xF0, [(if b = 0xF0 then 0x90 else 0x80, if b = 0xF4 then 0x8F else 0xBF),
      (0x80, 0xBF), (0x80, 0xBF)])
  else none

/-- A character begun: the bits so far, the ranges of the bytes still due, and the bytes already
taken, last first. -/
structure Pending where
  bits : Nat
  due : List (Nat × Nat)
  taken : List UInt8

/-- Decodes from the given offset, with a character begun or none. -/
def decodeFrom (offset : Nat) : Option Pending → List UInt8 → Except Fault (List Char)
  | none, [] => .ok []
  | none, b :: rest =>
    if b.toNat < 0x80 then
      (decodeFrom (offset + 1) none rest).map (Char.ofNat b.toNat :: ·)
    else
      match continuation? b with
      | none => .error ⟨.badStart, offset, [b]⟩
      | some (bits, due) => decodeFrom (offset + 1) (some ⟨bits, due, [b]⟩) rest
  | some p, [] => .error ⟨.cutShort, offset - p.taken.length, p.taken.reverse⟩
  | some p, b :: rest =>
    let fault : Fault := ⟨.badContinuation, offset - p.taken.length, p.taken.reverse⟩
    match p.due with
    | [] => .error fault
    | (low, high) :: due =>
      if low ≤ b.toNat ∧ b.toNat ≤ high then
        let bits := p.bits * 64 + (b.toNat - 0x80)
        match due with
        | [] => (decodeFrom (offset + 1) none rest).map (Char.ofNat bits :: ·)
        | _ => decodeFrom (offset + 1) (some ⟨bits, due, b :: p.taken⟩) rest
      else .error fault

/-- The text that the bytes encode, or the first fault. -/
def decode (bytes : List UInt8) : Except Fault (List Char) :=
  decodeFrom 0 none bytes

/-- The words for a flaw. -/
def Flaw.reason : Flaw → String
  | .badStart => "invalid start byte"
  | .badContinuation => "invalid continuation byte"
  | .cutShort => "unexpected end of data"

/-- The text of a fault: which bytes, where, and why. -/
def Fault.message (f : Fault) : String :=
  let place :=
    match f.bytes with
    | [b] => "byte 0x" ++ String.ofList (hexDigits 2 b.toNat) ++ " in position " ++ toString f.offset
    | bs => "bytes in position " ++ toString f.offset ++ "-" ++
      toString (f.offset + bs.length - 1)
  "'utf-8' codec can't decode " ++ place ++ ": " ++ f.flaw.reason

/-- The bytes that encode a text. -/
def encode (s : List Char) : List UInt8 :=
  s.flatMap String.utf8EncodeChar

end Literals.Text.Utf8
