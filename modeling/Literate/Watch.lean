import Literate.Project

/-! Watching: which changes call for a new pass. -/

namespace Literate

/-- Patterns of paths that matter, and of paths that never do. -/
structure WatchFilter where
  sources : List Glob.Pattern
  exclude : List Glob.Pattern

namespace WatchFilter

def ofSettings (s : Settings) : Except Fault WatchFilter :=
  match readPatterns (s.exclude ++ s.watch.exclude) with
  | .error e => .error e
  | .ok exclude =>
    match readPatterns s.sourcePatterns with
    | .error e => .error e
    | .ok sources => .ok ⟨sources, exclude⟩

def isRelevant (f : WatchFilter) (base p : Path) : Bool :=
  let q := Path.relativeTo base p
  f.sources.any (·.matchesPath q) && !f.exclude.any (·.matchesComponents q)

end WatchFilter

end Literate
