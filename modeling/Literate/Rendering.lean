import Literate.CodeFile
import Literate.Fault
import Literate.Marker

/-! Rendering: the text of a section is its chunks in order, with the text of the named section in
place of every marker. A trail of the sections under way refuses a section inside itself. -/

namespace Literate

/-- The sections under way, outermost first; `seen` holds the same names for looking up. -/
structure Trail where
  file : Text
  stack : List SectionName
  seen : List SectionName
  deriving DecidableEq, Repr

namespace Trail

def start (file : Text) : Trail :=
  ⟨file, [], []⟩

def depth (t : Trail) : Nat :=
  t.stack.length

/-- Enters a section, unless it is under way already. -/
def enter (t : Trail) (name : SectionName) : Except Fault Trail :=
  if name ∈ t.seen then .error (.cycle t.file (t.stack ++ [name]))
  else .ok { t with stack := t.stack ++ [name], seen := name :: t.seen }

/-- Leaves the section entered last. -/
def exit (t : Trail) : Trail :=
  match t.stack.getLast? with
  | none => t
  | some name => { t with stack := t.stack.dropLast, seen := t.seen.erase name }

end Trail

/-- Appends a chunk; unless it is the first one it starts on a line of its own. -/
def appendChunk (out chunk : Text) (isFirst : Bool) : Text :=
  if isFirst || out.getLast? = some '\n' then out ++ chunk else out ++ '\n' :: chunk

/-- Fills the chunks in order and joins them. -/
def fillChunks {σ : Type} (fill : SectionName → σ → Except Fault Text × σ) :
    List Text → Bool → Text → σ → Except Fault Text × σ
  | [], _, out, s => (.ok out, s)
  | chunk :: chunks, isFirst, out, s =>
    match Marker.replace fill chunk s with
    | (.error e, s) => (.error e, s)
    | (.ok text, s) => fillChunks fill chunks false (appendChunk out text isFirst) s

namespace CodeFile

/-- Renders a section with at most `budget` sections inside each other. When no more may be
entered, all sections of the file are under way, so that any other name is unknown. -/
def renderWithin (f : CodeFile) : Nat → SectionName → Trail → Except Fault Text × Trail
  | budget, name, trail =>
    match trail.enter name with
    | .error e => (.error e, trail)
    | .ok inside =>
      match budget, f.section? name with
      | budget + 1, some s =>
        match fillChunks (renderWithin f budget) s.chunks true [] inside with
        | (.ok text, after) => (.ok text, after.exit)
        | (.error e, after) => (.error e, after)
      | _, _ => (.error (.missingSection f.name name), inside)

/-- The sections that may still be entered. -/
def fresh (f : CodeFile) (trail : Trail) : List Section :=
  f.sections.filter fun s => s.name ∉ trail.seen

def renderSection (f : CodeFile) (name : SectionName) (trail : Trail) :
    Except Fault Text × Trail :=
  f.renderWithin (f.fresh trail).length name trail

def render (f : CodeFile) : Except Fault Text :=
  (f.renderSection .root (.start f.name)).1

end CodeFile

end Literate
