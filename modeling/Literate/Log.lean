import Literate.Text.Basic

/-! What a run reports besides its result. -/

namespace Literate

inductive Level where
  | debug
  | info
  | warn
  | note
  deriving DecidableEq, Repr

structure Entry where
  level : Level
  text : Text
  deriving DecidableEq, Repr

namespace Entry

/-- Controls that a terminal would act on are written out. -/
def visible (c : Char) : Text :=
  if c.toNat = 0x1B ∨ c.toNat = 0x07 ∨ c.toNat = 0x7F then "\\x".toList ++ twoDigits c.toNat
  else if c.toNat = 0x08 ∨ c.toNat = 0x0C then "\\x".toList ++ twoDigits c.toNat
  else if 0x80 ≤ c.toNat ∧ c.toNat ≤ 0x9F then
    "\\u\x7b".toList ++ Text.hex c.toNat ++ "\x7d".toList
  else [c]
where
  twoDigits (n : Nat) : Text := Text.hex (n / 16) ++ Text.hex (n % 16)

def line (e : Entry) : Text :=
  match e.level with
  | .debug => "DEBUG ".toList ++ e.text.flatMap visible
  | .info => "INFO ".toList ++ e.text.flatMap visible
  | .warn => "WARN ".toList ++ e.text.flatMap visible
  | .note => e.text

end Entry

end Literate
