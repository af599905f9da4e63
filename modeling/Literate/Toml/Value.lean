import Literate.Text.Basic

/-! Values of configuration documents. -/

namespace Literate.Toml

/-- How a table came about: written in braces, by its own header, as the parent of another table,
or by a dotted key. Only the last two can still grow. -/
inductive Origin where
  | inline
  | header
  | implied
  | dotted
  deriving DecidableEq, Repr

inductive Value where
  | string (t : Text)
  | integer (n : Int)
  | float (source : Text)
  | boolean (b : Bool)
  | dateTime (source : Text)
  | array (elements : List Value)
  | table (origin : Origin) (entries : List (Text × Value))
  | tables (elements : List (List (Text × Value)))

/-- Keys with their values, in order of definition. -/
abbrev Entries := List (Text × Value)

namespace Entries

def find? (key : Text) : Entries → Option Value
  | [] => none
  | (k, v) :: es => if k = key then some v else find? key es

/-- Gives the key a new value; a missing key is put at the end. -/
def put (key : Text) (value : Value) : Entries → Entries
  | [] => [(key, value)]
  | (k, v) :: es => if k = key then (key, value) :: es else (k, v) :: put key value es

def keys (es : Entries) : List Text :=
  es.map Prod.fst

end Entries

end Literate.Toml
