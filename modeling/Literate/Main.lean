import Literate.Command.Run

/-! The program. A run is computed on a picture of the file system, and afterwards the changes to
the picture are carried out. The names that wildcards can match come from standard input, one on a
line and as seen from the working directory. -/

namespace Literate.Program

open Command

/-- The place that a spelling stands for. -/
def placeOf (cwd : Place) (p : Path) : Place :=
  (Text.splitOn '/' p.text).foldl (fun place name =>
    if name = [] ∨ name = ['.'] then place
    else if name = ['.', '.'] then place.dropLast
    else place ++ [name]) (FileTree.startPlace cwd p)

/-- Stands for a file whose content has not been read. -/
def unread : Node :=
  .file (.binary [])

/-- The directories on the way to a place, the outermost first. -/
def parents (place : Place) : List Place :=
  (List.range place.length).drop 1 |>.map place.take

/-- Takes a name into the picture, and the directories on the way to it. -/
def sketch (cwd : Place) (t : FileTree) (p : Path) : FileTree :=
  let place := placeOf cwd p
  let t := (parents place).foldl (fun t dir => t.put dir .directory) t
  if (t.get? place).isSome then t else t.put place unread

/-- The nodes that differ from one picture to the next, which keeps the order of the old ones. -/
def changes : List (Place × Node) → List (Place × Node) → List (Place × Node)
  | old :: olds, new :: news =>
    if old = new then changes olds news else new :: changes olds news
  | [], news => news
  | _, [] => []

/-- The relevant files below the base directory with their contents. -/
def relevant (t : FileTree) (cwd : Place) (pr : Project) (filter : WatchFilter) :
    List (Path × Option Text) :=
  (t.descendants (placeOf cwd pr.base)).filterMap fun names =>
    let q := pr.base.join ⟨['/'].intercalate names⟩
    if filter.isRelevant pr.base q then some (q, (t.readText cwd q).toOption) else none

def spelling (place : Place) : String :=
  String.ofList place.path.text

/-- What the file system has at a place. -/
def nodeAt (place : Place) : IO (Option Node) := do
  try
    return some (.file (.ofBytes (← IO.FS.readBinFile (spelling place)).toList))
  catch
    | .noFileOrDirectory .. => return none
    | .inappropriateType .. => return some .directory
    | _ => return some unread

/-- Looks up a path and everything on the way to it. -/
def fetch (cwd : Place) (t : FileTree) (p : Path) : IO FileTree := do
  let place := placeOf cwd p
  let mut t := t
  for here in parents place ++ [place] do
    if here = [] then continue
    match ← nodeAt here with
    | some node => t := t.put here node
    | none => return t.erase here
  return t

def fetchAll (cwd : Place) (t : FileTree) (ps : List Path) : IO FileTree :=
  ps.foldlM (fetch cwd) t

/-- A picture with all that the command line can reach: configuration, sources, targets. -/
def picture (cwd : Place) (names : List Path) (i : Invocation) : IO FileTree := do
  let base := i.directory.getD cwd.path
  let configs := base.ancestors.flatMap fun dir => Settings.fileNames.map fun n => dir.join ⟨n⟩
  let t ← fetchAll cwd (names.foldl (sketch cwd) .empty)
    (cwd.path :: base :: i.config.toList ++ configs)
  let .ok pr := openProject t ⟨cwd, 0⟩ i | return t
  let .ok sources := pr.sourceFiles | return t
  let t ← fetchAll cwd t (sources.map (resolve base))
  let pr := { pr with files := t.files cwd base }
  let .ok store := pr.collect sources | return t
  fetchAll cwd t (store.names.map pr.outputPath)

/-- Carries out the changes; a file is written beside its place and moved there. -/
def apply (p : Session) (old new : FileTree) : IO Unit := do
  let mut count := 0
  for (place, node) in changes old.nodes new.nodes do
    match node with
    | .directory => IO.FS.createDir (spelling place)
    | .file (.text s) =>
      let aside := spelling (place.dropLast ++ [p.scratch count])
      count := count + 1
      IO.FS.writeFile aside (String.ofList s)
      IO.FS.rename aside (spelling place)
    | .file (.binary _) => pure ()

def report (log : List Entry) : IO Unit :=
  for e in log do
    IO.eprintln (String.ofList e.line)

/-- Looks for relevant changes again and again, and makes a pass after each. -/
partial def keepWatching (p : Session) (names : List Path) (i : Invocation) (pr : Project)
    (filter : WatchFilter) (delay : Nat) (last : List (Path × Option Text)) : IO Unit := do
  IO.sleep (max 50 delay).toUInt32
  let t ← picture p.cwd names i
  let now := relevant t p.cwd pr filter
  if now ≠ last then
    let (after, log) := watchPass t p { pr with files := t.files p.cwd pr.base }
    apply p t after
    report (log.filter (isReported i.verbose))
  keepWatching p names i pr filter delay now

partial def readNames (input : IO.FS.Stream) (names : List Path) : IO (List Path) := do
  let line ← input.getLine
  if line.isEmpty then return names.reverse
  readNames input (⟨Text.trimEnd line.toList⟩ :: names)

def execute (i : Invocation) : IO UInt32 := do
  let some dir ← IO.getEnv "PWD"
    | do IO.eprintln "Error initializing: no working directory"; return 1
  let cwd := placeOf [] ⟨dir.toList⟩
  let input ← IO.getStdin
  let names ← if ← input.isTty then pure [] else readNames input []
  let p : Session := ⟨cwd, (← IO.monoNanosNow) % 1000000⟩
  try
    let t ← picture cwd names i
    let o := run t p i
    report o.log
    apply p t o.tree
    IO.print (String.ofList o.stdout)
    match o.ending with
    | .done => return 0
    | .failed message =>
      IO.eprintln (String.ofList message)
      return 1
    | .watching pr filter delay =>
      (← IO.getStdout).flush
      keepWatching p names i pr filter delay (relevant o.tree cwd pr filter)
      return 0
  catch e =>
    IO.eprintln s!"Error: {e}"
    return 1

end Literate.Program

open Literate in
def main (args : List String) : IO UInt32 :=
  match Command.parse (args.map String.toList) with
  | .ok i => Program.execute i
  | .error .version => do
    IO.print (String.ofList Command.versionText)
    return 0
  | .error .help => do
    IO.print (String.ofList Command.helpText)
    return 0
  | .error .misuse => do
    IO.eprint (String.ofList Command.helpText)
    return 2
