import Literate.Text.Basic

/-! Paths. A path is its spelling; equality, order and prefixes go by components, which ignore
repeated and trailing separators and every `.` but a leading one. -/

namespace Literate

structure Path where
  text : Text
  deriving DecidableEq, Repr

inductive Component where
  | root
  | current
  | parent
  | normal (name : Text)
  deriving DecidableEq, Repr

namespace Component

/-- Components are ordered by kind, names by code points. -/
def key : Component → List Nat
  | root => [0]
  | current => [1]
  | parent => [2]
  | normal name => 3 :: name.map Char.toNat

theorem key_injective {a b : Component} (h : a.key = b.key) : a = b := by
  cases a <;> cases b <;> simp_all [key]
  rename_i s t
  exact List.map_inj_right (fun x y h => Char.toNat_inj.1 h) |>.1 h

end Component

namespace Path

/-- A component with the stretch of the spelling that it takes up. -/
structure Span where
  component : Component
  start : Nat
  stop : Nat
  deriving DecidableEq, Repr

def spansFrom (pos : Nat) (leading : Bool) : List Text → List Span
  | [] => []
  | s :: ss =>
    let rest := spansFrom (pos + s.length + 1) false ss
    if s = [] then rest
    else if s = ['.'] then
      if leading then ⟨.current, pos, pos + 1⟩ :: rest else rest
    else if s = ['.', '.'] then ⟨.parent, pos, pos + 2⟩ :: rest
    else ⟨.normal s, pos, pos + s.length⟩ :: rest

def isAbsolute (p : Path) : Bool :=
  p.text.head? = some '/'

def spans (p : Path) : List Span :=
  match p.text with
  | '/' :: cs => ⟨.root, 0, 1⟩ :: spansFrom 1 false (Text.splitOn '/' cs)
  | cs => spansFrom 0 true (Text.splitOn '/' cs)

def components (p : Path) : List Component :=
  p.spans.map Span.component

/-- Two spellings of one path. -/
def same (p q : Path) : Bool :=
  p.components = q.components

def key (p : Path) : List (List Nat) :=
  p.components.map Component.key

def le (p q : Path) : Bool :=
  Text.lexLe (Text.lexLe Nat.ble) p.key q.key

/-- The path itself, then its parent, the parent of that, and so on. -/
def ancestors (p : Path) : List Path :=
  let parents := (p.spans.dropLast.reverse.map Span.stop) ++
    (if p.isAbsolute || p.spans.isEmpty then [] else [0])
  p :: parents.map fun n => ⟨p.text.take n⟩

def parent? (p : Path) : Option Path :=
  p.ancestors.tail.head?

def fileName? (p : Path) : Option Text :=
  match p.components.getLast? with
  | some (.normal name) => some name
  | _ => none

/-- The name inside the directory; an absolute name stands for itself. -/
def join (dir name : Path) : Path :=
  if name.isAbsolute then name
  else if dir.text.isEmpty || dir.text.getLast? = some '/' then ⟨dir.text ++ name.text⟩
  else ⟨dir.text ++ '/' :: name.text⟩

/-- The spelling of what follows the components of `base`. -/
def stripBase? (base p : Path) : Option Path :=
  if base.components.isPrefixOf p.components then
    let rest := p.spans.drop base.components.length
    match rest.head?, rest.getLast? with
    | some first, some last => some ⟨(p.text.drop first.start).take (last.stop - first.start)⟩
    | _, _ => some ⟨[]⟩
  else none

/-- The path as seen from `base`, or the path itself if it lies elsewhere. -/
def relativeTo (base p : Path) : Path :=
  (stripBase? base p).getD p

def sort (ps : List Path) : List Path :=
  ps.mergeSort le

/-- Keeps the first of every run of spellings of one path, given the one before. -/
def dedupAfter (p : Path) : List Path → List Path
  | [] => []
  | q :: qs => if p.same q then dedupAfter p qs else q :: dedupAfter q qs

def dedup : List Path → List Path
  | [] => []
  | p :: ps => p :: dedupAfter p ps

/-- In increasing order, each path once. -/
def sortDistinct (ps : List Path) : List Path :=
  dedup (sort ps)

def isIn (p : Path) (ps : List Path) : Bool :=
  ps.any p.same

end Path

end Literate
