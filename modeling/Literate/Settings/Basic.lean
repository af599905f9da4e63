import Literate.Path
import Literate.Store

/-! Settings of a project, and updates that replace some of them. -/

namespace Literate

structure WatchSettings where
  debounce : Nat
  exclude : List Text
  deriving DecidableEq, Repr

structure Settings where
  sourcePatterns : List Text
  exclude : List Text
  outputDir : Option Path
  defaultFile : Text
  policy : Policy
  languages : List Text
  trimOutput : Bool
  watch : WatchSettings
  deriving DecidableEq, Repr

/-- New values for some of the settings. -/
structure Update where
  sourcePatterns : Option (List Text)
  exclude : Option (List Text)
  outputDir : Option Path
  defaultFile : Option Text
  policy : Option Policy
  languages : Option (List Text)
  trimOutput : Option Bool
  watch : Option WatchSettings
  deriving DecidableEq, Repr

namespace WatchSettings

def defaultDebounce : Nat := 100

def default : WatchSettings :=
  ⟨defaultDebounce, []⟩

end WatchSettings

namespace Settings

def defaultSourcePatterns : List Text :=
  ["**/*.md".toList]

def defaultExclude : List Text :=
  ["**/node_modules/**".toList, "**/target/**".toList, "**/.*/**".toList]

def default : Settings where
  sourcePatterns := defaultSourcePatterns
  exclude := defaultExclude
  outputDir := none
  defaultFile := Literate.defaultFile
  policy := .autoCreate
  languages := []
  trimOutput := true
  watch := .default

/-- Without a list of languages every block is taken. -/
def accepts (s : Settings) (language : Option Text) : Bool :=
  s.languages.isEmpty || match language with
    | some l => s.languages.contains l
    | none => false

def emptyStore (s : Settings) : Store :=
  .empty s.policy s.defaultFile

end Settings

namespace Update

/-- Settings that the update leaves open keep their value; `watch` is replaced as a whole. -/
def mergeInto (u : Update) (base : Settings) : Settings where
  sourcePatterns := u.sourcePatterns.getD base.sourcePatterns
  exclude := u.exclude.getD base.exclude
  outputDir := u.outputDir.or base.outputDir
  defaultFile := u.defaultFile.getD base.defaultFile
  policy := u.policy.getD base.policy
  languages := u.languages.getD base.languages
  trimOutput := u.trimOutput.getD base.trimOutput
  watch := u.watch.getD base.watch

end Update

end Literate
