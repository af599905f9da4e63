import Literate.Toml.Value

/-! Putting a document together. A header opens a table for the lines that follow; a dotted key
reaches into tables that only dotted keys have made. No table and no key is defined twice. -/

namespace Literate.Toml.Entries

/-- Adds a key that is not there yet, `path` tables further in. -/
def define (path : List Text) (key : Text) (value : Value) (es : Entries) : Option Entries :=
  match path with
  | [] =>
    match es.find? key with
    | some _ => none
    | none => some (es.put key value)
  | k :: ks =>
    match es.find? k with
    | none => (define ks key value []).map fun sub => es.put k (.table .dotted sub)
    | some (.table origin sub) =>
      if origin = .dotted ∨ (origin = .implied ∧ ks ≠ []) then
        (define ks key value sub).map fun sub => es.put k (.table origin sub)
      else none
    | some (.tables elements) =>
      match elements.getLast? with
      | some sub =>
        if ks = [] then none
        else (define ks key value sub).map fun sub =>
          es.put k (.tables (elements.dropLast ++ [sub]))
      | none => none
    | some _ => none

/-- Opens the table at `path` for a header. Tables on the way are implied; of several tables under
one name the last one counts. -/
def openTable (path : List Text) (es : Entries) : Option Entries :=
  match path with
  | [] => none
  | [k] =>
    match es.find? k with
    | none => some (es.put k (.table .header []))
    | some (.table .implied sub) => some (es.put k (.table .header sub))
    | some _ => none
  | k :: ks =>
    match es.find? k with
    | none => (openTable ks []).map fun sub => es.put k (.table .implied sub)
    | some (.table .inline _) => none
    | some (.table origin sub) => (openTable ks sub).map fun sub => es.put k (.table origin sub)
    | some (.tables elements) =>
      match elements.getLast? with
      | some sub => (openTable ks sub).map fun sub =>
          es.put k (.tables (elements.dropLast ++ [sub]))
      | none => none
    | some _ => none

/-- Adds one more table to the list of tables at `path`. -/
def openElement (path : List Text) (es : Entries) : Option Entries :=
  match path with
  | [] => none
  | [k] =>
    match es.find? k with
    | none => some (es.put k (.tables [[]]))
    | some (.tables elements) => some (es.put k (.tables (elements ++ [[]])))
    | some _ => none
  | k :: ks =>
    match es.find? k with
    | none => (openElement ks []).map fun sub => es.put k (.table .implied sub)
    | some (.table .inline _) => none
    | some (.table origin sub) => (openElement ks sub).map fun sub => es.put k (.table origin sub)
    | some (.tables elements) =>
      match elements.getLast? with
      | some sub => (openElement ks sub).map fun sub =>
          es.put k (.tables (elements.dropLast ++ [sub]))
      | none => none
    | some _ => none

/-- Changes the table that a header has opened. -/
def within (path : List Text) (change : Entries → Option Entries) (es : Entries) :
    Option Entries :=
  match path with
  | [] => change es
  | k :: ks =>
    match es.find? k with
    | some (.table origin sub) => (within ks change sub).map fun sub => es.put k (.table origin sub)
    | some (.tables elements) =>
      match elements.getLast? with
      | some sub => (within ks change sub).map fun sub =>
          es.put k (.tables (elements.dropLast ++ [sub]))
      | none => none
    | _ => none

end Literate.Toml.Entries
