import Literate.Fault

/-! Labels: the info line of a code block, `language > file#section`. All parts are optional.
Blanks may stand after the `>` and at the end. -/

namespace Literate

structure Label where
  language : Option Text
  file : Text
  sectionName : SectionName
  deriving DecidableEq, Repr

/-- The file of blocks that name none. -/
def defaultFile : Text :=
  "index.js".toList

def isFileChar (c : Char) : Bool :=
  !isWhite c && c != '#' && c != '>'

namespace Label

/-- The trimmed text before the first `>`, if there is any. -/
def languageTag (raw : Text) : Option Text :=
  match Text.trim (raw.takeWhile (· ≠ '>')) with
  | [] => none
  | tag => some tag

/-- A `#` with a name, and what follows it; without a name nothing is taken. -/
def sectionPart : Text → Option Text × Text
  | '#' :: cs =>
    match cs.takeWhile isSectionChar with
    | [] => (none, '#' :: cs)
    | name => (some name, cs.dropWhile isSectionChar)
  | cs => (none, cs)

/-- The file and section named after the `>`, and the text left over. -/
def destination (cs : Text) : Text × Option Text × Text :=
  let cs := cs.dropWhile isBlank
  let (name, rest) := sectionPart (cs.dropWhile isFileChar)
  (cs.takeWhile isFileChar, name, rest.dropWhile isBlank)

/-- Reads a label; a block that names no file goes to `file`. -/
def read (file raw : Text) : Except Fault Label :=
  match raw.dropWhile (· ≠ '>') with
  | [] => .ok ⟨languageTag raw, file, .root⟩
  | _ :: cs =>
    match destination cs with
    | (name, part, []) =>
      .ok ⟨languageTag raw, if name = [] then file else name,
        (part.map SectionName.ofText).getD .root⟩
    | (_, _, ['#']) => .error (.label raw none .missingName)
    | (_, _, rest) => .error (.label raw none (.unexpected rest))

end Label

end Literate
