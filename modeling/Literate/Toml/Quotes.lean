import Literate.Toml.Scan

/-! Strings in their four forms: basic ones with escapes and literal ones without, on one line or
on several. -/

namespace Literate.Toml

def hexDigit? (c : Char) : Option Nat :=
  if '0' ≤ c ∧ c ≤ '9' then some (c.toNat - '0'.toNat)
  else if 'a' ≤ c ∧ c ≤ 'f' then some (c.toNat - 'a'.toNat + 10)
  else if 'A' ≤ c ∧ c ≤ 'F' then some (c.toNat - 'A'.toNat + 10)
  else none

/-- The character with the code point that exactly `n` digits give. -/
def codePoint (n : Nat) : Scanner Char := fun t => do
  let digits ← (t.take n).mapM hexDigit?
  if digits.length = n then
    let code := digits.foldl (fun a d => a * 16 + d) 0
    if code.isValidChar then some (Char.ofNat code, t.drop n) else none
  else none

/-- What follows a backslash. -/
def escaped : Scanner Char
  | 'b' :: cs => some ('\x08', cs)
  | 't' :: cs => some ('\t', cs)
  | 'n' :: cs => some ('\n', cs)
  | 'f' :: cs => some ('\x0c', cs)
  | 'r' :: cs => some ('\r', cs)
  | '"' :: cs => some ('"', cs)
  | '\\' :: cs => some ('\\', cs)
  | 'u' :: cs => codePoint 4 cs
  | 'U' :: cs => codePoint 8 cs
  | _ => none

/-- A string on one line, after its opening quote. -/
def shortBasic : Scanner Text :=
  scan (fun acc t =>
    match t with
    | '"' :: cs => .done acc.reverse cs
    | '\\' :: cs =>
      match escaped cs with
      | some (c, rest) => .more (c :: acc) rest
      | none => .fail
    | c :: cs => if isPlain c then .more (c :: acc) cs else .fail
    | [] => .fail) []

def shortLiteral : Scanner Text :=
  scan (fun acc t =>
    match t with
    | '\'' :: cs => .done acc.reverse cs
    | c :: cs => if isPlain c then .more (c :: acc) cs else .fail
    | [] => .fail) []

/-- The end of a string on several lines: three quotes, with up to two more that belong to it. -/
def longEnd? (quote : Char) (t : Text) : Option (Text × Text) :=
  let n := min 5 (t.takeWhile (· = quote)).length
  if 3 ≤ n then some (List.replicate (n - 3) quote, t.drop n) else none

/-- After a backslash at the end of a line, all space up to the next text. -/
def joinedLines? (t : Text) : Option Text := do
  let rest ← newline? (skipInline t)
  let (_, rest) ← scan (fun _ t =>
    match t with
    | ' ' :: cs => .more () cs
    | '\t' :: cs => .more () cs
    | _ =>
      match newline? t with
      | some rest => .more () rest
      | none => .done () t) () rest
  return rest

def longBasic : Scanner Text :=
  scan (fun acc t =>
    match longEnd? '"' t with
    | some (quotes, rest) => .done (acc.reverse ++ quotes) rest
    | none =>
      match newline? t with
      | some rest => .more ('\n' :: acc) rest
      | none =>
        match t with
        | '\\' :: cs =>
          match joinedLines? cs with
          | some rest => .more acc rest
          | none =>
            match escaped cs with
            | some (c, rest) => .more (c :: acc) rest
            | none => .fail
        | c :: cs => if isPlain c then .more (c :: acc) cs else .fail
        | [] => .fail) []

def longLiteral : Scanner Text :=
  scan (fun acc t =>
    match longEnd? '\'' t with
    | some (quotes, rest) => .done (acc.reverse ++ quotes) rest
    | none =>
      match newline? t with
      | some rest => .more ('\n' :: acc) rest
      | none =>
        match t with
        | c :: cs => if isPlain c then .more (c :: acc) cs else .fail
        | [] => .fail) []

/-- A line end right after the opening quotes does not count. -/
def skipFirstNewline (t : Text) : Text :=
  (newline? t).getD t

def quotedText : Scanner Text
  | '"' :: '"' :: '"' :: cs => longBasic (skipFirstNewline cs)
  | '"' :: cs => shortBasic cs
  | '\'' :: '\'' :: '\'' :: cs => longLiteral (skipFirstNewline cs)
  | '\'' :: cs => shortLiteral cs
  | _ => none

end Literate.Toml
