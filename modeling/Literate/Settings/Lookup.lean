import Literate.FileTree.Basic
import Literate.Log
import Literate.Settings.Reader

/-! Finding the configuration of a directory: that of the directory itself or of the nearest one
above it that has any. -/

namespace Literate.Settings

def fileNames : List Text :=
  ["mdtangle.toml".toList, ".mdtangle.toml".toList]

/-- The first configuration file of the directory. -/
def fileIn? (t : FileTree) (cwd : Place) (dir : Path) : Option Path :=
  (fileNames.map fun name => dir.join ⟨name⟩).find? (t.has cwd)

def findFile? (t : FileTree) (cwd : Place) (dir : Path) : Option Path :=
  dir.ancestors.findSome? (fileIn? t cwd)

def loadFile (t : FileTree) (cwd : Place) (p : Path) : Except Fault Settings :=
  match t.readText cwd p with
  | .error e => .error (.access e)
  | .ok s =>
    match Update.read s with
    | .error e => .error e
    | .ok u => .ok (u.mergeInto .default)

/-- The settings for a directory; without a configuration file, the defaults. -/
def load (t : FileTree) (cwd : Place) (dir : Path) : Except Fault Settings :=
  match findFile? t cwd dir with
  | some p => loadFile t cwd p
  | none => .ok .default

/-- What loading a file reports. -/
def loadFileReport (t : FileTree) (cwd : Place) (p : Path) : List Entry :=
  match loadFile t cwd p with
  | .ok _ => [⟨.debug, "Loaded configuration from ".toList ++ p.text⟩]
  | .error _ => []

def loadReport (t : FileTree) (cwd : Place) (dir : Path) : List Entry :=
  match findFile? t cwd dir with
  | some p => loadFileReport t cwd p
  | none => []

end Literate.Settings
