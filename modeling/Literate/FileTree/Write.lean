import Literate.FileTree.Basic

/-! Changes to a file tree, one system call each, and the two composed ones that writing needs:
making a directory with all its parents, and replacing a file as a whole. -/

namespace Literate.FileTree

/-- The names of a path up to trailing separators, and whether there are any of these. -/
def steps (p : Path) : List Text × Bool :=
  let names := (Text.splitOn '/' p.text).reverse
  ((names.dropWhile (· = [])).reverse, names.head? = some [])

/-- The directory of the last name, the name, and whether separators follow it. The name is empty
if the path is the root. -/
def beforeLast (t : FileTree) (cwd : Place) (p : Path) :
    Except AccessError (Place × Text × Bool) :=
  match refuse? p with
  | some e => .error e
  | none =>
    let (names, trailing) := steps p
    match t.walk (startPlace cwd p) (names.dropLast ++ [[]]) with
    | .error e => .error e
    | .ok dir =>
      .ok (dir, names.getLast?.getD [], trailing)

/-- The same for calls that look the last name up, whatever follows it. -/
def lastStep (t : FileTree) (cwd : Place) (p : Path) :
    Except AccessError (Place × Text × Bool) :=
  match t.beforeLast cwd p with
  | .error e => .error e
  | .ok (dir, name, trailing) =>
    if nameLimit < Text.byteLength name then .error .nameTooLong
    else .ok (dir, name, trailing)

/-- Names that lead to an entry of their directory. -/
def isOrdinary (name : Text) : Bool :=
  name ≠ [] && name ≠ ['.'] && name ≠ ['.', '.']

def makeDir (t : FileTree) (cwd : Place) (p : Path) : Except AccessError FileTree :=
  match t.lastStep cwd p with
  | .error e => .error e
  | .ok (dir, name, _) =>
    if !isOrdinary name then .error .alreadyExists
    else match t.get? (dir ++ [name]) with
      | some _ => .error .alreadyExists
      | none => .ok (t.put (dir ++ [name]) .directory)

/-- Makes the first of the directories, each of which is the parent of the one before it. What has
been made stays, also after a failure. -/
def makeFirst (cwd : Place) (t : FileTree) : List Path → FileTree × Option AccessError
  | [] => (t, none)
  | p :: parents =>
    if p.text = [] then (t, none)
    else match t.makeDir cwd p with
      | .ok t => (t, none)
      | .error .notFound =>
        match makeFirst cwd t parents with
        | (t, some e) => (t, some e)
        | (t, none) =>
          match t.makeDir cwd p with
          | .ok t => (t, none)
          | .error e => (t, if t.isDirectory cwd p then none else some e)
      | .error e => (t, if t.isDirectory cwd p then none else some e)

def makeDirs (t : FileTree) (cwd : Place) (p : Path) : FileTree × Option AccessError :=
  makeFirst cwd t p.ancestors

/-- Creates a file or replaces the content of one. -/
def createFile (t : FileTree) (cwd : Place) (p : Path) (content : Content) :
    Except AccessError FileTree :=
  match t.beforeLast cwd p with
  | .error e => .error e
  | .ok (dir, name, trailing) =>
    if !isOrdinary name || trailing then .error .isDirectory
    else if nameLimit < Text.byteLength name then .error .nameTooLong
    else match t.get? (dir ++ [name]) with
      | some .directory => .error .isDirectory
      | _ => .ok (t.put (dir ++ [name]) (.file content))

/-- Makes the directory of a file and then the file. What has been made stays, also after a
failure. -/
def putFile (t : FileTree) (cwd : Place) (p : Path) (content : Content) :
    FileTree × Option AccessError :=
  match t.makeDirs cwd (p.parent?.getD ⟨[]⟩) with
  | (t, some e) => (t, some e)
  | (t, none) =>
    match t.createFile cwd p content with
    | .ok t => (t, none)
    | .error e => (t, some e)

def removeFile (t : FileTree) (cwd : Place) (p : Path) : Except AccessError FileTree :=
  match t.lastStep cwd p with
  | .error e => .error e
  | .ok (dir, name, trailing) =>
    if !isOrdinary name then .error .isDirectory
    else match t.get? (dir ++ [name]) with
      | none => .error .notFound
      | some .directory => .error .isDirectory
      | some (.file _) =>
        if trailing then .error .notDirectory else .ok (t.erase (dir ++ [name]))

/-- Removes a file, or a directory with everything below it. -/
def remove (t : FileTree) (cwd : Place) (p : Path) : Except AccessError FileTree :=
  match t.enter cwd p with
  | .ok place => .ok ⟨t.nodes.filter fun n => !place.isPrefixOf n.1⟩
  | .error _ => t.removeFile cwd p

/-- Moves a file to another name, over a file that is there but not over a directory. -/
def moveFile (t : FileTree) (cwd : Place) (source target : Path) :
    Except AccessError FileTree :=
  match t.lastStep cwd source, t.lastStep cwd target with
  | .error e, _ => .error e
  | _, .error e => .error e
  | .ok (sourceDir, sourceName, _), .ok (dir, name, trailing) =>
    if !isOrdinary sourceName || !isOrdinary name then .error .busy
    else match t.get? (sourceDir ++ [sourceName]), t.get? (dir ++ [name]) with
      | none, _ => .error .notFound
      | some node, old =>
        if trailing then .error .notDirectory
        else if old = some .directory then .error .isDirectory
        else if sourceDir ++ [sourceName] = dir ++ [name] then .ok t
        else .ok ((t.put (dir ++ [name]) node).erase (sourceDir ++ [sourceName]))

/-- Writes a file beside the target and moves it there, so that the target changes as a whole or
not at all. In a tree a file that can be created also takes its content: the exit where writing or
syncing it fails, say for want of room, and it is removed again, is left out. -/
def replaceFile (t : FileTree) (cwd : Place) (scratch : Text) (p : Path) (s : Text) :
    FileTree × Option AccessError :=
  let aside := (p.parent?.getD ⟨['.']⟩).join ⟨scratch⟩
  match t.createFile cwd aside (.text s) with
  | .error e => (t, some e)
  | .ok written =>
    match written.moveFile cwd aside p with
    | .ok moved => (moved, none)
    | .error e => ((written.removeFile cwd aside).toOption.getD written, some e)

end Literate.FileTree
