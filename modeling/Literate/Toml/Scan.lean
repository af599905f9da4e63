import Literate.Text.Basic

/-! Scanning a document from left to right. A scanner takes the text before it and gives what it
has read together with the rest, or nothing if the text is not as it should be. -/

namespace Literate.Toml

abbrev Scanner (α : Type) := Text → Option (α × Text)

/-- One round of a scanner that works in rounds: go on from a new state, or end. -/
inductive Round (σ α : Type) where
  | more (state : σ) (rest : Text)
  | done (result : α) (rest : Text)
  | fail

def rounds {σ α : Type} (round : σ → Text → Round σ α) : Nat → σ → Scanner α
  | 0, _, _ => none
  | n + 1, s, t =>
    match round s t with
    | .more s rest => rounds round n s rest
    | .done a rest => some (a, rest)
    | .fail => none

/-- Works in rounds that each take at least one character. -/
def scan {σ α : Type} (round : σ → Text → Round σ α) (start : σ) : Scanner α := fun t =>
  rounds round (t.length + 1) start t

def isInlineSpace (c : Char) : Bool :=
  c == ' ' || c == '\t'

def skipInline (t : Text) : Text :=
  t.dropWhile isInlineSpace

/-- Characters of comments and literal strings: all but controls, tab excepted. -/
def isPlain (c : Char) : Bool :=
  c == '\t' || (32 ≤ c.toNat && c.toNat != 127)

/-- A line feed, with or without a carriage return. -/
def newline? : Text → Option Text
  | '\n' :: cs => some cs
  | '\r' :: '\n' :: cs => some cs
  | _ => none

/-- Takes a given text. -/
def exactly (word t : Text) : Option Text :=
  Text.stripStart word t

/-- The rest of the line may hold a comment only. -/
def endOfLine? (t : Text) : Option Text :=
  let t := skipInline t
  let t := match t with
    | '#' :: cs => cs.dropWhile isPlain
    | _ => t
  match t with
  | [] => some []
  | _ => newline? t

/-- Skips spaces, line ends and comments; a comment has to end with its line. -/
def skipLines : Scanner Unit :=
  scan (fun _ t =>
    match t with
    | ' ' :: cs => .more () cs
    | '\t' :: cs => .more () cs
    | '#' :: cs =>
      match newline? (cs.dropWhile isPlain) with
      | some rest => .more () rest
      | none => .fail
    | '\n' :: cs => .more () cs
    | '\r' :: cs =>
      match cs with
      | '\n' :: rest => .more () rest
      | _ => .fail
    | _ => .done () t) ()

end Literate.Toml
