import Literate.Text.Basic

/-! UTF-8. Decoding gives one entry for each character and one empty entry for each longest run of
bytes that begins a character and does not finish it, so a byte sequence is a text exactly if no
entry is empty. -/

namespace Literate.Utf8

/-- The least and the greatest second byte, and the number of bytes after the first one. -/
def shape (b : Nat) : Option (Nat × Nat × Nat) :=
  if 0xC2 ≤ b ∧ b ≤ 0xDF then some (0x80, 0xBF, 1)
  else if b = 0xE0 then some (0xA0, 0xBF, 2)
  else if b = 0xED then some (0x80, 0x9F, 2)
  else if 0xE1 ≤ b ∧ b ≤ 0xEF then some (0x80, 0xBF, 2)
  else if b = 0xF0 then some (0x90, 0xBF, 3)
  else if 0xF1 ≤ b ∧ b ≤ 0xF3 then some (0x80, 0xBF, 3)
  else if b = 0xF4 then some (0x80, 0x8F, 3)
  else none

/-- The bits of the first byte that belong to the code point. -/
def leadBits (b : Nat) : Nat → Nat
  | 1 => b % 32
  | 2 => b % 16
  | _ => b % 8

/-- A character under way: its bits so far, the bytes still owed, and the range of the next. -/
structure Partial where
  bits : Nat
  owed : Nat
  low : Nat
  high : Nat

def decodeFrom : Option Partial → List UInt8 → List (Option Char)
  | none, [] => []
  | some _, [] => [none]
  | state, byte :: bytes =>
    let b := byte.toNat
    match state with
    | some p =>
      if p.low ≤ b ∧ b ≤ p.high then
        let bits := p.bits * 64 + b % 64
        if p.owed ≤ 1 then some (Char.ofNat bits) :: decodeFrom none bytes
        else decodeFrom (some ⟨bits, p.owed - 1, 0x80, 0xBF⟩) bytes
      else none :: start b bytes
    | none => start b bytes
where
  /-- Reads the first byte of a character. -/
  start (b : Nat) (bytes : List UInt8) : List (Option Char) :=
    if b < 0x80 then some (Char.ofNat b) :: decodeFrom none bytes
    else match shape b with
      | some (low, high, owed) => decodeFrom (some ⟨leadBits b owed, owed, low, high⟩) bytes
      | none => none :: decodeFrom none bytes

def decode (bytes : List UInt8) : List (Option Char) :=
  decodeFrom none bytes

/-- The text that the bytes stand for, if they are well formed. -/
def text? (bytes : List UInt8) : Option Text :=
  (decode bytes).mapM id

/-- The text with U+FFFD in place of everything malformed. -/
def textLossy (bytes : List UInt8) : Text :=
  (decode bytes).map (·.getD (Char.ofNat 0xFFFD))

end Literate.Utf8
