import Literate.Block
import Literate.Rendering

/-! The store: all generated files, in order of creation, built up block by block. -/

namespace Literate

/-- What happens to a block for an unknown file: the file is created, or the block is refused. -/
inductive Policy where
  | autoCreate
  | strict
  deriving DecidableEq, Repr

namespace Policy

def text : Policy → Text
  | autoCreate => "auto-create".toList
  | strict => "strict".toList

def ofText? (t : Text) : Option Policy :=
  if t = autoCreate.text then some autoCreate
  else if t = strict.text then some strict
  else none

end Policy

/-- The files are a table keyed by file name. The key of an entry is not kept beside it, as it is
always the name of the file itself. -/
structure Store where
  policy : Policy
  defaultFile : Text
  files : List CodeFile
  deriving DecidableEq, Repr

namespace Store

def empty (policy : Policy) (file : Text) : Store :=
  ⟨policy, file, []⟩

def file? (s : Store) (name : Text) : Option CodeFile :=
  s.files.find? (·.name = name)

def names (s : Store) : List Text :=
  s.files.map CodeFile.name

/-- Registers a file; without a name it is the default one. -/
def register (s : Store) (name : Option Text) : Store × Option Fault :=
  let name := name.getD s.defaultFile
  match s.file? name with
  | some _ => (s, some (.duplicateFile name))
  | none => ({ s with files := s.files ++ [.empty name] }, none)

/-- Changes the first file of that name; a missing one is put at the end first. -/
def updateFiles (name : Text) (change : CodeFile → CodeFile) : List CodeFile → List CodeFile
  | [] => [change (.empty name)]
  | f :: fs => if f.name = name then change f :: fs else f :: updateFiles name change fs

/-- Adds a block to the section that its label names. -/
def add (s : Store) (b : Block) : Store × Option Fault :=
  match b.scan s.defaultFile with
  | .error e => (s, some e)
  | .ok ⟨a, children⟩ =>
    if s.policy = .strict ∧ s.file? a.file = none then (s, some (.unregisteredFile a.file))
    else
      ({ s with files := updateFiles a.file (·.push a.sectionName b.text children) s.files }, none)

/-- A refused block leaves the store alone. -/
theorem refused_or_added (s : Store) (b : Block) :
    (∃ e, s.add b = (s, some e)) ∨ ∃ s', s.add b = (s', none) := by
  unfold add
  split
  · exact .inl ⟨_, rfl⟩
  · split
    · exact .inl ⟨_, rfl⟩
    · exact .inr ⟨_, rfl⟩

/-- Adds blocks up to the first that is refused; the blocks before it stay. -/
def addAll (s : Store) : List Block → Store × Option Fault
  | [] => (s, none)
  | b :: bs =>
    match s.add b with
    | (s, none) => s.addAll bs
    | (s, some e) => (s, some e)

def render (s : Store) (name : Text) : Except Fault Text :=
  match s.file? name with
  | some f => f.render
  | none => .error (.missingFile name)

/-- Puts a text under a name. A new name comes last, one that is there keeps its place. -/
def putText (texts : List (Text × Text)) (entry : Text × Text) : List (Text × Text) :=
  match texts with
  | [] => [entry]
  | known :: texts =>
    if known.1 = entry.1 then entry :: texts else known :: putText texts entry

/-- Renders all files in order, up to the first that fails. -/
def renderEach (s : Store) : Except Fault (List (Text × Text)) :=
  s.files.mapM fun f => f.render.map fun text => (f.name, text)

/-- The texts of all files, each under the name of its file. -/
def renderAll (s : Store) : Except Fault (List (Text × Text)) :=
  s.renderEach.map (·.foldl putText [])

end Store

end Literate
