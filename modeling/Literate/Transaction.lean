import Literate.Fault
import Literate.FileTree.Write
import Literate.Log

/-! Transactions: writes that are queued first and then executed in order. A file that already
holds its text is left alone. -/

namespace Literate

structure Write where
  path : Path
  content : Text
  deriving DecidableEq, Repr

/-- Where a run takes place: its working directory, and the number in the names of its scratch
files. -/
structure Session where
  cwd : Place
  id : Nat
  deriving DecidableEq, Repr

abbrev Transaction := List Write

/-- The name of the scratch file of the `n`th write. -/
def Session.scratch (p : Session) (n : Nat) : Text :=
  ".mdtangle-tmp-".toList ++ Text.ofNat p.id ++ '-' :: Text.ofNat n

namespace Write

def isUnchanged (t : FileTree) (p : Session) (w : Write) : Bool :=
  match t.readText p.cwd w.path with
  | .ok s => s = w.content
  | .error _ => false

def describe (t : FileTree) (p : Session) (w : Write) : Text :=
  (if t.has p.cwd w.path then "write ".toList else "create ".toList) ++ w.path.text

/-- Makes the directory of the target and replaces the target. -/
def execute (t : FileTree) (p : Session) (n : Nat) (w : Write) :
    FileTree × Option AccessError :=
  match w.path.parent? with
  | none => t.replaceFile p.cwd (p.scratch n) w.path w.content
  | some dir =>
    match t.makeDirs p.cwd dir with
    | (t, some e) => (t, some e)
    | (t, none) => t.replaceFile p.cwd (p.scratch n) w.path w.content

end Write

namespace Transaction

/-- The writes that would change something. -/
def pending (t : FileTree) (p : Session) (ws : Transaction) : List Write :=
  ws.filter fun w => !w.isUnchanged t p

def describe (t : FileTree) (p : Session) (ws : Transaction) : List Text :=
  (pending t p ws).map fun w => w.describe t p

/-- Executes from the `n`th write on; gives the paths written, or the first failure. -/
def executeFrom (p : Session) (n : Nat) (t : FileTree) :
    Transaction → FileTree × Except Fault (List Path)
  | [] => (t, .ok [])
  | w :: ws =>
    if w.isUnchanged t p then executeFrom p n t ws
    else match w.execute t p n with
      | (t, some e) => (t, .error (.access e))
      | (t, none) =>
        match executeFrom p (n + 1) t ws with
        | (t, .ok paths) => (t, .ok (w.path :: paths))
        | (t, .error e) => (t, .error e)

def execute (t : FileTree) (p : Session) (ws : Transaction) :
    FileTree × Except Fault (List Path) :=
  executeFrom p 0 t ws

/-- What executing reports: the files that are left alone, up to the first failure. -/
def reportFrom (p : Session) (n : Nat) (t : FileTree) : Transaction → List Entry
  | [] => []
  | w :: ws =>
    if w.isUnchanged t p then
      ⟨.debug, "Unchanged ".toList ++ w.path.text⟩ :: reportFrom p n t ws
    else match w.execute t p n with
      | (_, some _) => []
      | (t, none) => reportFrom p (n + 1) t ws

def report (t : FileTree) (p : Session) (ws : Transaction) : List Entry :=
  reportFrom p 0 t ws

end Transaction

end Literate
