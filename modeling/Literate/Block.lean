import Literate.Label
import Literate.Marker

/-! Code blocks as they come out of documents, and what a block says about itself. -/

namespace Literate

structure Block where
  label : Option Text
  text : Text
  location : Option Location
  deriving DecidableEq, Repr

/-- Where a block goes and which sections its text refers to. -/
structure Scan where
  label : Label
  children : List SectionName
  deriving DecidableEq, Repr

/-- A block without a label counts as one with an empty label. -/
def Block.scan (file : Text) (b : Block) : Except Fault Scan :=
  match Label.read file (b.label.getD []) with
  | .ok a => .ok ⟨a, Marker.references b.text⟩
  | .error e => .error (e.withLocation b.location)

end Literate
