import Literate.Text.Alphanumeric

/-! Names of sections. Every code file has a section `root`; the others are written with a leading
`#`. The empty name and `default` stand for `root`. -/

namespace Literate

inductive SectionName where
  | root
  | named (bare : Text)
  deriving DecidableEq, Repr

/-- Letters, digits and `_ - . : /`. -/
def isSectionChar (c : Char) : Bool :=
  isAlphanumeric c || c == '_' || c == '-' || c == '.' || c == ':' || c == '/'

namespace SectionName

def ofBare (bare : Text) : SectionName :=
  if bare = [] ∨ bare = "default".toList then root else named bare

/-- Reads a name with or without its `#`. -/
def ofText : Text → SectionName
  | '#' :: bare => ofBare bare
  | bare => ofBare bare

def text : SectionName → Text
  | root => "root".toList
  | named bare => '#' :: bare

def isRoot (n : SectionName) : Bool :=
  n = root

def le (a b : SectionName) : Bool :=
  Text.lexLe Nat.ble (a.text.map Char.toNat) (b.text.map Char.toNat)

/-- Drops every name that equals the one before it. -/
def dedupAfter (n : SectionName) : List SectionName → List SectionName
  | [] => []
  | m :: ms => if m = n then dedupAfter n ms else m :: dedupAfter m ms

/-- In the order of their texts, each name once. -/
def sortDistinct (ns : List SectionName) : List SectionName :=
  match ns.mergeSort le with
  | [] => []
  | n :: ns => n :: dedupAfter n ns

end SectionName

end Literate
