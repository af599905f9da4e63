import Literate.Project

/-! Listings of a store, as plain lines or as JSON. -/

namespace Literate.Command

def sectionLine (s : Section) : Text :=
  "  ".toList ++ s.name.text ++ " (".toList ++ Text.ofNat s.chunks.length ++ " blocks)".toList ++
    (if s.children.isEmpty then []
      else " -> ".toList ++ ", ".toList.intercalate (s.children.map SectionName.text)) ++ ['\n']

def fileLines (f : CodeFile) : Text :=
  f.name ++ '\n' :: f.sections.flatMap sectionLine

def plainListing (s : Store) : Text :=
  if s.files.isEmpty then "No generated files.\n".toList else s.files.flatMap fileLines

def jsonChar (c : Char) : Text :=
  if c = '"' then ['\\', '"']
  else if c = '\\' then ['\\', '\\']
  else if c = '\n' then ['\\', 'n']
  else if c = '\r' then ['\\', 'r']
  else if c = '\t' then ['\\', 't']
  else if c.toNat = 0x08 then ['\\', 'b']
  else if c.toNat = 0x0C then ['\\', 'f']
  else if c.toNat < 0x20 then "\\u00".toList ++ Text.hex (c.toNat / 16) ++ Text.hex (c.toNat % 16)
  else [c]

def jsonText (t : Text) : Text :=
  '"' :: t.flatMap jsonChar ++ ['"']

def newLine (depth : Nat) : Text :=
  '\n' :: List.replicate (2 * depth) ' '

/-- Items on lines of their own between brackets; without items the brackets stand alone. -/
def bracketed (opening closing : Char) (depth : Nat) (items : List Text) : Text :=
  if items.isEmpty then [opening, closing]
  else opening :: [','].intercalate (items.map (newLine (depth + 1) ++ ·)) ++
    newLine depth ++ [closing]

def jsonList (depth : Nat) (items : List Text) : Text :=
  bracketed '[' ']' depth items

def jsonObject (depth : Nat) (fields : List (String × Text)) : Text :=
  bracketed '\x7b' '\x7d' depth
    (fields.map fun (key, value) => jsonText key.toList ++ ": ".toList ++ value)

def sectionJson (depth : Nat) (s : Section) : Text :=
  jsonObject depth [
    ("blocks", Text.ofNat s.chunks.length),
    ("children", jsonList (depth + 1) (s.children.map fun n => jsonText n.text)),
    ("name", jsonText s.name.text)]

def fileJson (pr : Project) (depth : Nat) (f : CodeFile) : Text :=
  jsonObject depth [
    ("name", jsonText f.name),
    ("path", jsonText (pr.outputPath f.name).text),
    ("sections", jsonList (depth + 1) (f.sections.map (sectionJson (depth + 2))))]

def jsonListing (pr : Project) (s : Store) : Text :=
  jsonList 0 (s.files.map (fileJson pr 1)) ++ ['\n']

end Literate.Command
