import Literate.Text.Basic

/-! Fenced code blocks. A fence opens with at least three backticks or tildes and ends at the first
later line that holds at least as many of the same character and nothing else. -/

namespace Literate

structure Opening where
  indent : Text
  mark : Char
  count : Nat
  info : Text
  deriving DecidableEq, Repr

/-- A fenced block. `line` is the number of its opening line; a fence that is not `closed` runs to
the end of the document. -/
structure Fence where
  closed : Bool
  info : Text
  content : Text
  line : Nat
  indent : Text
  deriving DecidableEq, Repr

namespace Opening

def isMark (c : Char) : Bool :=
  c == '`' || c == '~'

/-- Reads an opening line. Backticks cannot stand in the info of a fence of backticks. -/
def ofLine? (line : Text) : Option Opening :=
  match line.dropWhile isWhite with
  | [] => none
  | c :: cs =>
    let info := cs.dropWhile (· = c)
    let count := (cs.takeWhile (· = c)).length + 1
    if isMark c ∧ 3 ≤ count ∧ ¬(c = '`' ∧ '`' ∈ info) then
      some ⟨line.takeWhile isWhite, c, count, Text.trim info⟩
    else none

def isClosed (o : Opening) (line : Text) : Bool :=
  let t := Text.trim line
  o.count ≤ t.length && t.all (· = o.mark)

/-- A line of the content without the indentation of the fence. -/
def strip (o : Opening) (line : Text) : Text :=
  (Text.stripStart o.indent line).getD line

def fence (o : Opening) (closed : Bool) (line : Nat) (content : List Text) : Fence :=
  ⟨closed, o.info, Text.unlines (content.map o.strip), line, o.indent⟩

end Opening

namespace Fence

/-- A fence under way: its opening, the number of its line, and the content so far, last line
first. -/
structure Begun where
  opening : Opening
  line : Nat
  content : List Text

def Begun.fence (b : Begun) (closed : Bool) : Fence :=
  b.opening.fence closed b.line b.content.reverse

/-- Reads lines from number `n` on, outside of a fence or inside one. -/
def readLines (n : Nat) : Option Begun → List Text → List Fence
  | none, [] => []
  | some b, [] => [b.fence false]
  | none, l :: ls =>
    match Opening.ofLine? l with
    | none => readLines (n + 1) none ls
    | some o => readLines (n + 1) (some ⟨o, n, []⟩) ls
  | some b, l :: ls =>
    if b.opening.isClosed l then
      b.fence true :: readLines (n + 1) none ls
    else readLines (n + 1) (some { b with content := l :: b.content }) ls

def read (t : Text) : List Fence :=
  readLines 1 none (Text.lines t)

end Fence

end Literate
