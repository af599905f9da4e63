/-! Texts and the ways of cutting them: rows, lines, pieces between separators, trimmed ends.
Cutting into rows loses nothing, so every other cut is described through it. -/

namespace Literate

/-- Texts are lists of characters, so that every scanner recurses on its input. -/
abbrev Text := List Char

def inRanges (ranges : List (Nat × Nat)) (n : Nat) : Bool :=
  ranges.any fun r => r.1 ≤ n && n ≤ r.2

/-- The characters with the property `White_Space`. -/
def isWhite (c : Char) : Bool :=
  let n := c.toNat
  (9 ≤ n && n ≤ 13) || n == 0x20 || n == 0x85 || n == 0xA0 || n == 0x1680 ||
    (0x2000 ≤ n && n ≤ 0x200A) || n == 0x2028 || n == 0x2029 || n == 0x202F || n == 0x205F ||
    n == 0x3000

/-- Space, tab, carriage return and line feed. -/
def isBlank (c : Char) : Bool :=
  c == ' ' || c == '\t' || c == '\r' || c == '\n'

namespace Text

/-- Cuts after every line feed; each row keeps its own. -/
def rows : Text → List Text
  | [] => []
  | c :: cs =>
    if c = '\n' then [c] :: rows cs
    else match rows cs with
      | [] => [[c]]
      | r :: rs => (c :: r) :: rs

def dropEnd (c : Char) (t : Text) : Text :=
  if t.getLast? = some c then t.dropLast else t

/-- A row without its line feed and, if it had one, without the carriage return before it. -/
def chomp (row : Text) : Text :=
  if row.getLast? = some '\n' then dropEnd '\r' row.dropLast else row

def lines (t : Text) : List Text :=
  (rows t).map chomp

def unlines (ls : List Text) : Text :=
  ['\n'].intercalate ls

/-- Cuts at every `sep`; there is always at least one piece. -/
def splitOn (sep : Char) : Text → List Text
  | [] => [[]]
  | c :: cs =>
    if c = sep then [] :: splitOn sep cs
    else match splitOn sep cs with
      | [] => [[c]]
      | p :: ps => (c :: p) :: ps

def trimStart (t : Text) : Text :=
  t.dropWhile isWhite

def trimEnd (t : Text) : Text :=
  (t.reverse.dropWhile isWhite).reverse

def trim (t : Text) : Text :=
  trimEnd (trimStart t)

/-- What follows `start` in the text, if the text starts so. -/
def stripStart : Text → Text → Option Text
  | [], t => some t
  | _ :: _, [] => none
  | p :: ps, c :: cs => if p = c then stripStart ps cs else none

/-- Number of bytes of the text in UTF-8. -/
def byteLength (t : Text) : Nat :=
  t.foldr (fun c n => c.utf8Size + n) 0

/-- The order of words: the first difference decides, and a word comes before its continuations. -/
def lexLe {α : Type} [DecidableEq α] (le : α → α → Bool) : List α → List α → Bool
  | [], _ => true
  | _ :: _, [] => false
  | a :: s, b :: t => if a = b then lexLe le s t else le a b

def ofNat (n : Nat) : Text :=
  Nat.toDigits 10 n

def hex (n : Nat) : Text :=
  Nat.toDigits 16 n

@[simp] theorem rows_nil : rows [] = [] := rfl

@[simp] theorem byteLength_nil : byteLength [] = 0 := rfl

@[simp] theorem byteLength_cons (c : Char) (t : Text) :
    byteLength (c :: t) = c.utf8Size + byteLength t := rfl

@[simp] theorem byteLength_append (s t : Text) :
    byteLength (s ++ t) = byteLength s + byteLength t := by
  induction s with
  | nil => simp
  | cons c s ih => simp [ih, Nat.add_assoc]

end Text

end Literate
