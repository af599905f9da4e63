import Literate.Document
import Literate.Project
import Literate.Transaction

/-! From documents to queued writes. Each step comes with what it reports on the way, up to the
point where it fails. -/

namespace Literate

/-- Without white space at the end, but with one line feed. -/
def normalizeOutput (t : Text) : Text :=
  Text.trimEnd t ++ ['\n']

namespace Store

def blockReport (s : Scan) : Entry :=
  ⟨.debug, "Block for ".toList ++ s.label.file ++ s.label.sectionName.text ++ " (".toList ++
    Text.ofNat s.children.length ++ " references)".toList⟩

/-- What adding a block reports. -/
def addReport (s : Store) (b : Block) : List Entry :=
  match b.scan s.defaultFile with
  | .error _ => []
  | .ok scan =>
    blockReport scan ::
      if s.policy = .autoCreate ∧ s.file? scan.label.file = none then
        [⟨.debug, "Creating code file ".toList ++ scan.label.file⟩]
      else []

def addAllReport (s : Store) : List Block → List Entry
  | [] => []
  | b :: bs =>
    s.addReport b ++ match s.add b with
      | (s, none) => s.addAllReport bs
      | (_, some _) => []

/-- What rendering a file reports. -/
def renderReport (s : Store) (name : Text) : List Entry :=
  match s.file? name with
  | some f => [⟨.debug, "Tangling ".toList ++ f.name⟩]
  | none => []

end Store

namespace Project

def loadDocument (pr : Project) (p : Path) : Except Fault Document :=
  match pr.files.read p with
  | .ok t => .ok (Document.read pr.settings (some p) t)
  | .error e => .error (.access e)

/-- Adds the blocks of the documents in order. -/
def collectInto (pr : Project) (s : Store) : List Path → Except Fault Store
  | [] => .ok s
  | p :: ps =>
    match pr.loadDocument p with
    | .error e => .error e
    | .ok d =>
      match s.addAll d.blocks with
      | (_, some e) => .error e
      | (s, none) => pr.collectInto s ps

def collect (pr : Project) (paths : List Path) : Except Fault Store :=
  pr.collectInto pr.settings.emptyStore paths

def collectReportFrom (pr : Project) (s : Store) : List Path → List Entry
  | [] => []
  | p :: ps =>
    match pr.files.read p with
    | .error _ => []
    | .ok t =>
      let blocks := (Document.read pr.settings (some p) t).blocks
      Document.warnings (some p) t ++
        ⟨.debug, p.text ++ ": ".toList ++ Text.ofNat blocks.length ++ " code blocks".toList⟩ ::
        s.addAllReport blocks ++
        match s.addAll blocks with
        | (_, some _) => []
        | (s, none) => pr.collectReportFrom s ps

def collectReport (pr : Project) (paths : List Path) : List Entry :=
  pr.collectReportFrom pr.settings.emptyStore paths

/-- A generated file as it is written. -/
def renderOutput (pr : Project) (s : Store) (name : Text) : Except Fault Text :=
  (s.render name).map fun t => if pr.settings.trimOutput then normalizeOutput t else t

def queueNames (pr : Project) (s : Store) : List Text → Except Fault Transaction
  | [] => .ok []
  | name :: names =>
    match pr.renderOutput s name with
    | .error e => .error e
    | .ok t =>
      match pr.queueNames s names with
      | .error e => .error e
      | .ok ws => .ok (⟨pr.outputPath name, t⟩ :: ws)

/-- One write for each file of the store. -/
def queue (pr : Project) (s : Store) : Except Fault Transaction :=
  pr.queueNames s s.names

def queueReport (pr : Project) (s : Store) : List Text → List Entry
  | [] => []
  | name :: names =>
    s.renderReport name ++ match pr.renderOutput s name with
      | .error _ => []
      | .ok _ => pr.queueReport s names

def tangle (pr : Project) (paths : List Path) : Except Fault Transaction :=
  match pr.collect paths with
  | .error e => .error e
  | .ok s => pr.queue s

def summary (documents files : Nat) : Entry :=
  ⟨.info, "Tangled ".toList ++ Text.ofNat documents ++ " documents into ".toList ++
    Text.ofNat files ++ " files".toList⟩

def tangleReport (pr : Project) (paths : List Path) : List Entry :=
  pr.collectReport paths ++ match pr.collect paths with
    | .error _ => []
    | .ok s => summary paths.length s.files.length :: pr.queueReport s s.names

/-- Tangles all source files. -/
def tangleAll (pr : Project) : Except Fault Transaction :=
  match pr.sourceFiles with
  | .error e => .error e
  | .ok paths => pr.tangle paths

end Project

end Literate
