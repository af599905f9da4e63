import Literate.Toml.Number
import Literate.Toml.Table

/-! Reading configuration documents. Values and keys are nested less than eighty deep. -/

namespace Literate.Toml

/-- Levels of nesting that are too many. -/
def depthLimit : Nat := 80

def isBareKeyChar (c : Char) : Bool :=
  c.isAlphanum || c == '_' || c == '-'

def simpleKey : Scanner Text
  | '"' :: cs => shortBasic cs
  | '\'' :: cs => shortLiteral cs
  | cs =>
    match cs.takeWhile isBareKeyChar with
    | [] => none
    | key => some (key, cs.dropWhile isBareKeyChar)

/-- Keys with dots and spaces between them. -/
def dottedKey : Scanner (List Text) := fun t => do
  let (keys, rest) ← scan (fun acc t =>
    match simpleKey (skipInline t) with
    | none => .fail
    | some (key, rest) =>
      match skipInline rest with
      | '.' :: cs => .more (key :: acc) cs
      | rest => .done (key :: acc).reverse rest) [] t
  if keys.length < depthLimit then some (keys, rest) else none

/-- The elements of an array after its opening bracket. -/
def arrayElements (element : Scanner Value) : Scanner (List Value) :=
  scan (fun acc t =>
    match skipLines t with
    | none => .fail
    | some (_, ']' :: cs) => .done acc.reverse cs
    | some (_, t) =>
      match element t with
      | none => .fail
      | some (v, rest) =>
        match skipLines rest with
        | some (_, ',' :: cs) => .more (v :: acc) cs
        | some (_, ']' :: cs) => .done (v :: acc).reverse cs
        | _ => .fail) []

/-- A key, `=`, and a value. -/
def keyValue (element : Scanner Value) : Scanner (List Text × Value) := fun t => do
  let (keys, t) ← dottedKey t
  let t ← exactly ['='] t
  let (v, t) ← element (skipInline t)
  some ((keys, v), t)

def defineKeys (keys : List Text) (v : Value) (es : Entries) : Option Entries := do
  es.define keys.dropLast (← keys.getLast?) v

/-- The entries of an inline table after its opening brace. -/
def inlineEntries (element : Scanner Value) : Scanner Entries := fun t =>
  match skipInline t with
  | '\x7d' :: cs => some ([], cs)
  | t =>
    scan (fun es t =>
      match keyValue element t with
      | none => .fail
      | some ((keys, v), rest) =>
        match defineKeys keys v es with
        | none => .fail
        | some es =>
          match skipInline rest with
          | ',' :: cs => .more es cs
          | '\x7d' :: cs => .done es cs
          | _ => .fail) [] t

/-- A value with at most `room` levels of nesting. -/
def value (room : Nat) : Scanner Value := fun t =>
  match t with
  | '[' :: cs =>
    match room with
    | 0 => none
    | room + 1 => (arrayElements (value room) cs).map fun (vs, rest) => (.array vs, rest)
  | '\x7b' :: cs =>
    match room with
    | 0 => none
    | room + 1 =>
      (inlineEntries (value room) cs).map fun (es, rest) => (.table .inline es, rest)
  | '"' :: _ => (quotedText t).map fun (s, rest) => (.string s, rest)
  | '\'' :: _ => (quotedText t).map fun (s, rest) => (.string s, rest)
  | 't' :: _ => (exactly "true".toList t).map fun rest => (.boolean true, rest)
  | 'f' :: _ => (exactly "false".toList t).map fun rest => (.boolean false, rest)
  | _ => number t

/-- A document under way: its entries, and the table that the next lines belong to. -/
structure Draft where
  entries : Entries
  current : List Text

/-- A header after its opening brackets. -/
def header (close : Text) (t : Text) : Option (List Text × Text) := do
  let (keys, t) ← dottedKey t
  let t ← exactly close t
  some (keys, ← endOfLine? t)

/-- One line, or several if a value runs over them. -/
def line (draft : Draft) (t : Text) : Option (Draft × Text) :=
  match skipInline t with
  | '[' :: '[' :: cs => do
    let (keys, rest) ← header "]]".toList cs
    some (⟨← draft.entries.openElement keys, keys⟩, rest)
  | '[' :: cs => do
    let (keys, rest) ← header "]".toList cs
    some (⟨← draft.entries.openTable keys, keys⟩, rest)
  | t =>
    match endOfLine? t with
    | some rest => some (draft, rest)
    | none => do
      let ((keys, v), rest) ← keyValue (value (depthLimit - 1)) t
      let entries ← draft.entries.within draft.current (defineKeys keys v)
      some (⟨entries, draft.current⟩, ← endOfLine? rest)

/-- Drops a byte order mark. -/
def skipMark : Text → Text
  | c :: cs => if c.toNat = 0xFEFF then cs else c :: cs
  | [] => []

def read (t : Text) : Option Entries :=
  (scan (fun draft t =>
    match t with
    | [] => .done draft.entries []
    | _ =>
      match line draft t with
      | some (draft, rest) => .more draft rest
      | none => .fail) ⟨[], []⟩ (skipMark t)).map Prod.fst

end Literate.Toml
