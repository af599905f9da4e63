import Literate.Command.Line
import Literate.Command.Listing
import Literate.Settings.Lookup
import Literate.Tangling
import Literate.Watch

/-! Running a command on a file tree. A run is a function of the tree and the command line: it
gives the new tree, what is printed, what is reported, and how it ends. -/

namespace Literate.Command

inductive Ending where
  | done
  | failed (message : Text)
  | watching (project : Project) (filter : WatchFilter) (debounce : Nat)

structure Outcome where
  tree : FileTree
  stdout : Text
  log : List Entry
  ending : Ending

/-- The session of a run in a directory. Neither the directory nor an argument holds a NUL. -/
def startIn (t : FileTree) (dir : Path) (args : List Text) (id : Nat) :
    Except AccessError Session :=
  if (dir.text :: args).any (·.any (·.toNat = 0)) then .error .nulInArgument
  else (t.enter [] dir).map fun cwd => ⟨cwd, id⟩

/-- The settings and the base directory that the command line asks for. -/
def openProject (t : FileTree) (p : Session) (i : Invocation) : Except Fault Project :=
  let base := i.directory.getD p.cwd.path
  let settings := match i.config with
    | some file => Settings.loadFile t p.cwd file
    | none => Settings.load t p.cwd base
  settings.map fun s =>
    ⟨{ s with policy := i.policy.getD s.policy }, base, t.files p.cwd base⟩

def openReport (t : FileTree) (p : Session) (i : Invocation) : List Entry :=
  match i.config with
  | some file => Settings.loadFileReport t p.cwd file
  | none => Settings.loadReport t p.cwd (i.directory.getD p.cwd.path)

/-- What a command does once its project is open. -/
structure Result where
  tree : FileTree
  stdout : Text
  log : List Entry
  fault : Option Fault

/-- Carries out queued writes, or only tells about them. -/
def commit (t : FileTree) (p : Session) (dryRun quiet : Bool) (ws : Transaction) : Result :=
  let pending := Transaction.describe t p ws
  if pending.isEmpty then
    ⟨t, if quiet then [] else "Nothing to tangle, all ".toList ++ Text.ofNat ws.length ++
      " files up to date.\n".toList, [], none⟩
  else if dryRun then
    ⟨t, "Would perform ".toList ++ Text.ofNat pending.length ++ " actions:\n".toList ++
      pending.flatMap fun d => "  ".toList ++ d ++ ['\n'], [], none⟩
  else
    match Transaction.execute t p ws with
    | (t', .ok written) =>
      ⟨t', if quiet then [] else "Tangled ".toList ++ Text.ofNat written.length ++
        " files.\n".toList, Transaction.report t p ws, none⟩
    | (t', .error e) => ⟨t', [], Transaction.report t p ws, some e⟩

def tangle (t : FileTree) (p : Session) (pr : Project) (dryRun quiet : Bool)
    (globs : List Text) (files : List Path) : Result :=
  match pr.select files globs with
  | .error e => ⟨t, [], [], some e⟩
  | .ok paths =>
    match pr.tangle paths with
    | .error e => ⟨t, [], pr.tangleReport paths, some e⟩
    | .ok ws =>
      let r := commit t p dryRun quiet ws
      { r with log := pr.tangleReport paths ++ r.log }

/-- The store of all source files, and what building it reports. -/
def wholeStore (pr : Project) : Except Fault Store × List Entry :=
  match pr.sourceFiles with
  | .error e => (.error e, [])
  | .ok paths => (pr.collect paths, pr.collectReport paths)

def display (t : FileTree) (pr : Project) (target : Text) : Result :=
  match wholeStore pr with
  | (.error e, log) => ⟨t, [], log, some e⟩
  | (.ok s, log) =>
    match pr.renderOutput s target with
    | .error e => ⟨t, [], log ++ s.renderReport target, some e⟩
    | .ok text => ⟨t, text, log ++ s.renderReport target, none⟩

def list (t : FileTree) (pr : Project) (json : Bool) : Result :=
  match wholeStore pr with
  | (.error e, log) => ⟨t, [], log, some e⟩
  | (.ok s, log) => ⟨t, if json then jsonListing pr s else plainListing s, log, none⟩

/-- One pass while watching; a failing pass is reported and does not end the watch. -/
def watchPass (t : FileTree) (p : Session) (pr : Project) : FileTree × List Entry :=
  let r := tangle t p pr false true [] []
  (r.tree, r.log ++ [match r.fault with
    | none => ⟨.info, "Tangle complete".toList⟩
    | some e => ⟨.note, "Tangle error: ".toList ++ e.message⟩])

def watchBanner (debounce : Nat) : Text :=
  "Watching for changes (debounce: ".toList ++ Text.ofNat debounce ++ "ms)...\n".toList ++
    "Press Ctrl+C to stop.\n".toList

def failure (e : Fault) : Ending :=
  .failed ("Error: ".toList ++ e.message)

def ofResult (r : Result) : Outcome :=
  ⟨r.tree, r.stdout, r.log, match r.fault with
    | none => .done
    | some e => failure e⟩

/-- Prints its banner, makes one pass, and then waits for changes to the base directory. -/
def watch (t : FileTree) (p : Session) (pr : Project) (debounce : Option Nat) : Outcome :=
  match WatchFilter.ofSettings pr.settings with
  | .error e => ⟨t, [], [], failure e⟩
  | .ok filter =>
    let delay := debounce.getD pr.settings.watch.debounce
    let (after, log) := watchPass t p pr
    ⟨after, watchBanner delay, log,
      match after.node? p.cwd (p.cwd.path.join pr.base) with
      | .ok _ => .watching pr filter delay
      | .error e => failure (.watch e)⟩

def act (t : FileTree) (p : Session) (pr : Project) : Action → Outcome
  | .tangle dryRun quiet globs files => ofResult (tangle t p pr dryRun quiet globs files)
  | .display target => ofResult (display t pr target)
  | .list json => ofResult (list t pr json)
  | .watch debounce => watch t p pr debounce

def isReported (verbose : Bool) (e : Entry) : Bool :=
  verbose || e.level ≠ .debug

def run (t : FileTree) (p : Session) (i : Invocation) : Outcome :=
  let o : Outcome :=
    match openProject t p i with
    | .error e => ⟨t, [], openReport t p i, .failed ("Error initializing: ".toList ++ e.message)⟩
    | .ok pr =>
      let o := act t p pr i.action
      { o with log := openReport t p i ++ o.log }
  { o with log := o.log.filter (isReported i.verbose) }

end Literate.Command
