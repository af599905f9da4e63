import Literate.SectionName

/-! Generated files and their sections. -/

namespace Literate

/-- A section: the texts of its blocks in order, and the sections that they refer to. -/
structure Section where
  name : SectionName
  file : Text
  chunks : List Text
  children : List SectionName
  deriving DecidableEq, Repr

/-- A generated file; its sections stand in order of creation, `root` first. They are a table keyed
by section name, whose keys are not kept apart from the names of the sections. -/
structure CodeFile where
  name : Text
  sections : List Section
  deriving DecidableEq, Repr

namespace Section

def empty (file : Text) (name : SectionName) : Section :=
  ⟨name, file, [], []⟩

/-- Adds the names that are not there yet. -/
def addChildren (known : List SectionName) : List SectionName → List SectionName
  | [] => known
  | n :: ns => addChildren (if n ∈ known then known else known ++ [n]) ns

def push (s : Section) (chunk : Text) (children : List SectionName) : Section :=
  { s with chunks := s.chunks ++ [chunk], children := addChildren s.children children }

end Section

namespace CodeFile

def empty (name : Text) : CodeFile :=
  ⟨name, [Section.empty name .root]⟩

def section? (f : CodeFile) (name : SectionName) : Option Section :=
  f.sections.find? (·.name = name)

/-- Changes the first section of that name; a missing one is put at the end first. -/
def updateSections (file : Text) (name : SectionName) (change : Section → Section) :
    List Section → List Section
  | [] => [change (Section.empty file name)]
  | s :: ss => if s.name = name then change s :: ss else s :: updateSections file name change ss

def push (f : CodeFile) (name : SectionName) (chunk : Text) (children : List SectionName) :
    CodeFile :=
  { f with sections := updateSections f.name name (·.push chunk children) f.sections }

end CodeFile

end Literate
