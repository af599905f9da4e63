import Literate.Files
import Literate.Settings.Basic

/-! Projects: settings, files and a base directory. The source files of a project are the files
that match a source pattern and no exclude pattern. -/

namespace Literate

structure Project where
  settings : Settings
  base : Path
  files : Files

/-- Reads patterns in order, up to the first malformed one. -/
def readPatterns (patterns : List Text) : Except Fault (List Glob.Pattern) :=
  match patterns.mapM Glob.Pattern.read with
  | .ok ps => .ok ps
  | .error e => .error (.pattern e)

namespace Project

/-- Exclude patterns match component by component: `*` stops at separators. -/
def isExcluded (exclude : List Glob.Pattern) (p : Path) : Bool :=
  exclude.any (·.matchesComponents p)

def globAccess (pr : Project) (pattern : Text) : Except Fault (List Path) :=
  match pr.files.glob pattern with
  | .ok ps => .ok ps
  | .error e => .error (.access e)

/-- The matches of all patterns, one pattern after the other. -/
def matching (pr : Project) (keep : Path → Bool) : List Text → Except Fault (List Path)
  | [] => .ok []
  | pattern :: patterns =>
    match pr.globAccess pattern with
    | .error e => .error e
    | .ok found =>
      match matching pr keep patterns with
      | .error e => .error e
      | .ok rest => .ok (found.filter keep ++ rest)

def sourceFiles (pr : Project) : Except Fault (List Path) :=
  match readPatterns pr.settings.exclude with
  | .error e => .error e
  | .ok exclude =>
    match pr.matching (fun p => !isExcluded exclude p) pr.settings.sourcePatterns with
    | .error e => .error e
    | .ok found => .ok (Path.sortDistinct found)

/-- The given paths, seen from the base directory; each has to be a source file. -/
def known (pr : Project) (all : List Path) : List Path → Except Fault (List Path)
  | [] => .ok []
  | p :: ps =>
    let q := Path.relativeTo pr.base p
    if q.isIn all then
      match known pr all ps with
      | .error e => .error e
      | .ok rest => .ok (q :: rest)
    else .error (.settings (.notASource p))

def selectFiles (pr : Project) (paths : List Path) : Except Fault (List Path) :=
  match pr.sourceFiles with
  | .error e => .error e
  | .ok all =>
    match pr.known all paths with
    | .error e => .error e
    | .ok found => .ok (Path.sortDistinct found)

/-- The source files among the matches; every pattern has to match one. -/
def knownMatches (pr : Project) (all : List Path) : List Text → Except Fault (List Path)
  | [] => .ok []
  | pattern :: patterns =>
    match pr.globAccess pattern with
    | .error e => .error e
    | .ok found =>
      match found.filter (·.isIn all) with
      | [] => .error (.settings (.noMatch pattern))
      | ps =>
        match knownMatches pr all patterns with
        | .error e => .error e
        | .ok rest => .ok (ps ++ rest)

def selectGlobs (pr : Project) (patterns : List Text) : Except Fault (List Path) :=
  match pr.sourceFiles with
  | .error e => .error e
  | .ok all =>
    match pr.knownMatches all patterns with
    | .error e => .error e
    | .ok found => .ok (Path.sortDistinct found)

/-- The source files that a selection by names and by patterns picks; without either, all. -/
def select (pr : Project) (paths : List Path) (patterns : List Text) :
    Except Fault (List Path) :=
  if paths.isEmpty ∧ patterns.isEmpty then pr.sourceFiles
  else
    match if paths.isEmpty then .ok [] else pr.selectFiles paths with
    | .error e => .error e
    | .ok named =>
      match if patterns.isEmpty then .ok [] else pr.selectGlobs patterns with
      | .error e => .error e
      | .ok globbed => .ok (Path.sortDistinct (named ++ globbed))

/-- Where a generated file is written. -/
def outputPath (pr : Project) (name : Text) : Path :=
  match pr.settings.outputDir with
  | some dir => resolve pr.base (dir.join ⟨name⟩)
  | none => resolve pr.base ⟨name⟩

end Project

end Literate
