import Literate.Path

/-! Places in documents. -/

namespace Literate

/-- A line, counted from one, of a document that may have a name. -/
structure Location where
  file : Option Path
  line : Nat
  deriving DecidableEq, Repr

namespace Location

def inFile (l : Location) (file : Path) : Location :=
  { l with file := some file }

def text (l : Location) : Text :=
  match l.file with
  | some p => p.text ++ ':' :: Text.ofNat l.line
  | none => "line ".toList ++ Text.ofNat l.line

end Location

end Literate
