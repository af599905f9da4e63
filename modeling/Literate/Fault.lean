import Literate.AccessError
import Literate.Location
import Literate.SectionName
import Literate.Text.Quoted

/-! Everything that can go wrong, by cause, and its wording. -/

namespace Literate

/-- What is wrong with a label: a `#` without a name, or text that belongs to nothing. -/
inductive LabelProblem where
  | missingName
  | unexpected (rest : Text)
  deriving DecidableEq, Repr

inductive SettingsProblem where
  | notASource (path : Path)
  | noMatch (pattern : Text)
  deriving DecidableEq, Repr

inductive Fault where
  | label (raw : Text) (location : Option Location) (problem : LabelProblem)
  | duplicateFile (file : Text)
  | missingFile (file : Text)
  | unregisteredFile (file : Text)
  | missingSection (file : Text) (name : SectionName)
  | cycle (file : Text) (chain : List SectionName)
  | access (cause : AccessError)
  | settings (problem : SettingsProblem)
  | toml
  | pattern (e : Glob.PatternError)
  | watch (cause : AccessError)
  deriving DecidableEq, Repr

def LabelProblem.message : LabelProblem → Text
  | missingName => "missing section name after '#'".toList
  | unexpected rest => "unexpected input '".toList ++ rest ++ ['\'']

def SettingsProblem.message : SettingsProblem → Text
  | notASource path =>
    "File ".toList ++ path.text ++
      " is not a source file (does not match source_patterns)".toList
  | noMatch pattern =>
    "Glob pattern '".toList ++ pattern ++ "' matched no source files".toList

namespace Fault

def message : Fault → Text
  | label raw location problem =>
    "Invalid annotation ".toList ++ Text.quoted raw ++
      (match location with
        | some l => " at ".toList ++ l.text
        | none => []) ++
      ": ".toList ++ problem.message
  | duplicateFile file => "Duplicate code file: ".toList ++ file
  | missingFile file => "Code file not found: ".toList ++ file
  | unregisteredFile file =>
    "Code file ".toList ++ file ++ " was not registered with add_code_file".toList
  | missingSection file name =>
    "Section ".toList ++ name.text ++ " referenced in ".toList ++ file ++
      " has no code blocks".toList
  | cycle file chain =>
    "Cycle detected in ".toList ++ file ++ ": ".toList ++
      " -> ".toList.intercalate (chain.map SectionName.text)
  | access cause => "I/O error: ".toList ++ cause.message
  | settings problem => "Configuration error: ".toList ++ problem.message
  | toml => "TOML parse error".toList
  | pattern e => "Glob pattern error: ".toList ++ e.message
  | watch .notFound => "Watch error: No path was found.".toList
  | watch cause => "Watch error: ".toList ++ cause.message

/-- Says where a malformed label stands, unless that is already known. -/
def withLocation : Fault → Option Location → Fault
  | label raw none problem, location => label raw location problem
  | fault, _ => fault

end Fault

end Literate
