import Literate.Glob.Walk

/-! The files that a project reads: those of a file tree below a base directory, or a table kept
in memory. -/

namespace Literate

/-- What a project may ask of its files. Found paths come in increasing order. -/
structure Files where
  read : Path → Except AccessError Text
  has : Path → Bool
  glob : Text → Except AccessError (List Path)

/-- A path as seen from the working directory. -/
def resolve (base p : Path) : Path :=
  if p.isAbsolute then p else base.join p

namespace FileTree

/-- The files that match the pattern below `base`, relative to `base` where they lie in it. -/
def glob (t : FileTree) (cwd : Place) (base : Path) (pattern : Text) :
    Except AccessError (List Path) :=
  match Glob.Route.read (base.join ⟨pattern⟩).text with
  | .error e => .error (.badPattern e)
  | .ok route =>
    .ok (Path.sort (((route.paths t cwd).filter (t.isFile cwd)).map (Path.relativeTo base)))

def files (t : FileTree) (cwd : Place) (base : Path) : Files where
  read p := t.readText cwd (resolve base p)
  has p := t.has cwd (resolve base p)
  glob := t.glob cwd base

end FileTree

/-- Texts under their paths, in increasing order of the paths. -/
structure MemoryFiles where
  entries : List (Path × Text)
  deriving DecidableEq, Repr

namespace MemoryFiles

def empty : MemoryFiles :=
  ⟨[]⟩

def insertEntry (p : Path) (s : Text) : List (Path × Text) → List (Path × Text)
  | [] => [(p, s)]
  | (q, r) :: es =>
    if p.same q then (q, s) :: es
    else if p.le q then (p, s) :: (q, r) :: es
    else (q, r) :: insertEntry p s es

/-- Adds a file; one that is there already gets the new text and keeps its spelling. -/
def insert (m : MemoryFiles) (p : Path) (s : Text) : MemoryFiles :=
  ⟨insertEntry p s m.entries⟩

def erase (m : MemoryFiles) (p : Path) : MemoryFiles :=
  ⟨m.entries.filter fun e => !p.same e.1⟩

def paths (m : MemoryFiles) : List Path :=
  m.entries.map Prod.fst

def read (m : MemoryFiles) (p : Path) : Except AccessError Text :=
  match m.entries.find? fun e => p.same e.1 with
  | some (_, s) => .ok s
  | none => .error .notInMemory

def glob (m : MemoryFiles) (pattern : Text) : Except AccessError (List Path) :=
  match Glob.Pattern.read pattern with
  | .error e => .error (.badPattern e)
  | .ok p => .ok (m.paths.filter p.matchesPath)

def files (m : MemoryFiles) : Files where
  read := m.read
  has p := p.isIn m.paths
  glob := m.glob

end MemoryFiles

end Literate
