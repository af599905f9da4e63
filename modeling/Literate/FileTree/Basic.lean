import Literate.AccessError
import Literate.Path
import Literate.Text.Utf8

/-! A tree of directories and files, and how paths lead through it. A path is followed name by
name from the root or from the working directory; every name but the last has to lead to a
directory. -/

namespace Literate

/-- The names on the way from the root. -/
abbrev Place := List Text

/-- What a file holds: a text, or bytes that are no text. -/
inductive Content where
  | text (t : Text)
  | binary (bytes : List UInt8)
  deriving DecidableEq, Repr

inductive Node where
  | directory
  | file (content : Content)
  deriving DecidableEq, Repr

/-- All directories and files below the root, each under its place. -/
structure FileTree where
  nodes : List (Place × Node)
  deriving DecidableEq, Repr

namespace Content

def ofBytes (bytes : List UInt8) : Content :=
  match Utf8.text? bytes with
  | some t => text t
  | none => binary bytes

/-- The text to show for a file, whatever it holds. -/
def shown : Content → Text
  | text t => t
  | binary bytes => Utf8.textLossy bytes

end Content

namespace FileTree

def empty : FileTree :=
  ⟨[]⟩

/-- The node at a place; places of another depth are passed over without a look at their names. -/
def find (place : Place) : List (Place × Node) → Option Node
  | [] => none
  | (q, n) :: ns => if q.length = place.length ∧ q = place then some n else find place ns

def get? (t : FileTree) (place : Place) : Option Node :=
  if place = [] then some .directory else find place t.nodes

def putNode (place : Place) (node : Node) : List (Place × Node) → List (Place × Node)
  | [] => [(place, node)]
  | (q, n) :: ns => if q = place then (place, node) :: ns else (q, n) :: putNode place node ns

def put (t : FileTree) (place : Place) (node : Node) : FileTree :=
  ⟨putNode place node t.nodes⟩

def erase (t : FileTree) (place : Place) : FileTree :=
  ⟨t.nodes.filter fun n => n.1 ≠ place⟩

/-- The longest name and the longest path, in bytes. -/
def nameLimit : Nat := 255

def pathLimit : Nat := 4095

/-- Follows names from a place. An empty name and `.` stay, but only at a directory. -/
def walk (t : FileTree) (place : Place) : List Text → Except AccessError Place
  | [] => .ok place
  | name :: names =>
    match t.get? place with
    | none => .error .notFound
    | some (.file _) => .error .notDirectory
    | some .directory =>
      if name = [] ∨ name = ['.'] then walk t place names
      else if name = ['.', '.'] then walk t place.dropLast names
      else if nameLimit < Text.byteLength name then .error .nameTooLong
      else match t.get? (place ++ [name]) with
        | none => .error .notFound
        | some _ => walk t (place ++ [name]) names

/-- Paths that no system call takes. -/
def refuse? (p : Path) : Option AccessError :=
  if p.text.any (·.toNat = 0) then some .nulInName
  else if p.text = [] then some .notFound
  else if pathLimit < Text.byteLength p.text then some .nameTooLong
  else none

def startPlace (cwd : Place) (p : Path) : Place :=
  if p.isAbsolute then [] else cwd

/-- The place that a path leads to. -/
def locate (t : FileTree) (cwd : Place) (p : Path) : Except AccessError Place :=
  match refuse? p with
  | some e => .error e
  | none => t.walk (startPlace cwd p) (Text.splitOn '/' p.text)

def node? (t : FileTree) (cwd : Place) (p : Path) : Except AccessError Node :=
  match t.locate cwd p with
  | .error e => .error e
  | .ok place =>
    match t.get? place with
    | some n => .ok n
    | none => .error .notFound

/-- The place of a directory. -/
def enter (t : FileTree) (cwd : Place) (p : Path) : Except AccessError Place :=
  match t.locate cwd p with
  | .error e => .error e
  | .ok place => if t.get? place = some .directory then .ok place else .error .notDirectory

def has (t : FileTree) (cwd : Place) (p : Path) : Bool :=
  match t.node? cwd p with
  | .ok _ => true
  | .error _ => false

def isDirectory (t : FileTree) (cwd : Place) (p : Path) : Bool :=
  match t.node? cwd p with
  | .ok .directory => true
  | _ => false

def isFile (t : FileTree) (cwd : Place) (p : Path) : Bool :=
  match t.node? cwd p with
  | .ok (.file _) => true
  | _ => false

def readText (t : FileTree) (cwd : Place) (p : Path) : Except AccessError Text :=
  match t.node? cwd p with
  | .error e => .error e
  | .ok .directory => .error .isDirectory
  | .ok (.file (.text s)) => .ok s
  | .ok (.file (.binary _)) => .error .notText

/-- The way on from a directory, if the place lies below it. -/
def below? (dir place : Place) : Option Place :=
  if dir.isPrefixOf place ∧ place.length ≠ dir.length then some (place.drop dir.length) else none

/-- Everything below a directory, as seen from there. -/
def descendants (t : FileTree) (dir : Place) : List Place :=
  t.nodes.filterMap fun n => below? dir n.1

def children (t : FileTree) (dir : Place) : List Text :=
  (t.descendants dir).filterMap fun
    | [name] => some name
    | _ => none

end FileTree

/-- A place written as an absolute path. -/
def Place.path : Place → Path
  | [] => ⟨['/']⟩
  | names => ⟨names.flatMap ('/' :: ·)⟩

end Literate
