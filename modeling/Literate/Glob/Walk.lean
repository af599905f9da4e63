import Literate.FileTree.Basic
import Literate.Glob.Match

/-! The paths of a file tree that match a pattern, found component by component. A component
without wildcards is looked up as it stands, also if it is `.` or `..`; `**` leads to everything
below, and at the end of a pattern to directories only. -/

namespace Literate.Glob

/-- A pattern cut at its separators. -/
structure Route where
  isAbsolute : Bool
  components : List Pattern
  directoriesOnly : Bool

/-- One `**` after another adds nothing. -/
def collapse : List Pattern → List Pattern
  | [] => []
  | p :: ps =>
    match collapse ps with
    | q :: qs => if p.isRecursive && q.isRecursive then q :: qs else p :: q :: qs
    | [] => [p]

/-- The pieces between separators; a separator at the end closes the last one. -/
def cutComponents (t : Text) : List Text :=
  let pieces := Text.splitOn '/' t
  if pieces.getLast? = some [] ∧ pieces.length ≠ 1 then pieces.dropLast else pieces

/-- A pattern may be well formed as a whole and still have a malformed component. -/
def Route.read (source : Text) : Except PatternError Route := do
  let _ ← Pattern.read source
  let isAbsolute := source.head? = some '/'
  let body := if isAbsolute then source.drop 1 else source
  let components ← (cutComponents body).mapM Pattern.read
  return ⟨isAbsolute, collapse components, source.getLast? = some '/'⟩

/-- The entry of a directory; inside `.` names stand alone. -/
def entry (dir : Path) (name : Text) : Path :=
  if dir.components = [.current] then ⟨name⟩ else dir.join ⟨name⟩

section
variable (t : FileTree) (cwd : Place)

def childPaths (dir : Path) : List Path :=
  match t.locate cwd dir with
  | .ok place => (t.children place).map (entry dir)
  | .error _ => []

def descendantPaths (dir : Path) : List Path :=
  match t.locate cwd dir with
  | .ok place => (t.descendants place).map fun names => names.foldl entry dir
  | .error _ => []

def Pattern.matchesName (p : Pattern) (path : Path) : Bool :=
  match path.fileName? with
  | some name => p.matchesText name
  | none => false

/-- `.` and `..` match only patterns that start with a dot. -/
def dotPaths (p : Pattern) (dir : Path) : List Path :=
  if p.tokens.head? = some (.char '.') then
    ([['.'], ['.', '.']].filter p.matchesText).map fun name => dir.join ⟨name⟩
  else []

/-- The paths that the components lead to from a path. -/
def follow (directoriesOnly : Bool) : List Pattern → Path → List Path
  | [], path => if directoriesOnly && !t.isDirectory cwd path then [] else [path]
  | p :: ps, path =>
    match p.literal? with
    | some name =>
      let next := entry path name
      let isThere :=
        if name = ['.'] ∨ name = ['.', '.'] then t.isDirectory cwd path else t.has cwd next
      if isThere then follow directoriesOnly ps next else []
    | none =>
      if !t.isDirectory cwd path then []
      else if p.isRecursive then
        match ps with
        | [] => (descendantPaths t cwd path).filter (t.isDirectory cwd)
        | q :: qs =>
          ((descendantPaths t cwd path).filter q.matchesName).flatMap (follow directoriesOnly qs)
      else
        ((childPaths t cwd path).filter p.matchesName ++ dotPaths p path).flatMap
          (follow directoriesOnly ps)

def Route.paths (r : Route) : List Path :=
  follow t cwd r.directoriesOnly r.components (if r.isAbsolute then ⟨['/']⟩ else ⟨['.']⟩)

end

end Literate.Glob
