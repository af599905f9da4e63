import Literate.Path
import Literate.Store

/-! The command line. Global switches may stand before or after the command; the later place wins.
Switches may be run together (`-nq`), carry their value (`-Cdir`, `--glob=x`) or take the next
word, and `--` ends them. No switch but `--glob` may be repeated in one place. -/

namespace Literate.Command

inductive Switch where
  | config
  | directory
  | verbose
  | policy
  | dryRun
  | quiet
  | glob
  | json
  | debounce
  | help
  | version
  deriving DecidableEq, Repr

/-- The part of the command line in front of the command, or behind a given one. -/
inductive Scope where
  | global
  | tangle
  | display
  | list
  | watch
  deriving DecidableEq, Repr

namespace Switch

def long : Switch → Text
  | config => "config".toList
  | directory => "directory".toList
  | verbose => "verbose".toList
  | policy => "policy".toList
  | dryRun => "dry-run".toList
  | quiet => "quiet".toList
  | glob => "glob".toList
  | json => "json".toList
  | debounce => "debounce".toList
  | help => "help".toList
  | version => "version".toList

def short? : Switch → Option Char
  | config => some 'c'
  | directory => some 'C'
  | verbose => some 'v'
  | dryRun => some 'n'
  | quiet => some 'q'
  | debounce => some 'd'
  | help => some 'h'
  | version => some 'V'
  | policy | glob | json => none

def takesValue : Switch → Bool
  | config | directory | policy | glob | debounce => true
  | _ => false

end Switch

namespace Scope

def switches : Scope → List Switch
  | global => [.config, .directory, .verbose, .policy, .help, .version]
  | tangle => [.config, .directory, .verbose, .policy, .help, .dryRun, .quiet, .glob]
  | display => [.config, .directory, .verbose, .policy, .help]
  | list => [.config, .directory, .verbose, .policy, .help, .json]
  | watch => [.config, .directory, .verbose, .policy, .help, .debounce]

def ofName? (t : Text) : Option Scope :=
  if t = "tangle".toList then some tangle
  else if t = "show".toList then some display
  else if t = "list".toList then some list
  else if t = "watch".toList then some watch
  else none

/-- How many words may follow. -/
def takesWord (scope : Scope) (before : Nat) : Bool :=
  match scope with
  | tangle => true
  | display => before = 0
  | global | list | watch => false

end Scope

inductive Item where
  | switch (s : Switch) (value : Option Text)
  | word (w : Text)
  | malformed
  deriving DecidableEq, Repr

/-- Switches run together; the last one may still need a value. -/
def cluster (scope : Scope) : Text → List Item × Option Switch
  | [] => ([], none)
  | c :: cs =>
    match scope.switches.find? (·.short? = some c) with
    | none => ([.malformed], none)
    | some s =>
      if s.takesValue then
        match cs with
        | [] => ([], some s)
        | '=' :: v => ([.switch s (some v)], none)
        | v => ([.switch s (some v)], none)
      else
        let (items, open?) := cluster scope cs
        (.switch s none :: items, open?)

/-- A long switch, with a value if it holds `=`. -/
def longSwitch (scope : Scope) (t : Text) : List Item × Option Switch :=
  match scope.switches.find? (·.long = t.takeWhile (· ≠ '=')) with
  | none => ([.malformed], none)
  | some s =>
    match s.takesValue, t.dropWhile (· ≠ '=') with
    | true, [] => ([], some s)
    | true, _ :: v => ([.switch s (some v)], none)
    | false, [] => ([.switch s none], none)
    | false, _ => ([.malformed], none)

/-- The items of a scope, and the words left over from the command's name on. `open?` is a switch
that waits for its value. -/
def items (scope : Scope) (open? : Option Switch) : List Text → List Item × List Text
  | [] => (if open?.isSome then [.malformed] else [], [])
  | a :: as =>
    let after (found : List Item × Option Switch) : List Item × List Text :=
      let (more, rest) := items scope found.2 as
      (found.1 ++ more, rest)
    match open?, a with
    | some _, '-' :: _ :: _ => ([.malformed], [])
    | some s, v => after ([.switch s (some v)], none)
    | none, ['-', '-'] => (as.map .word, [])
    | none, '-' :: '-' :: t => after (longSwitch scope t)
    | none, '-' :: c :: cs => after (cluster scope (c :: cs))
    | none, w => if scope = .global then ([], a :: as) else after ([.word w], none)

/-- The values given in one scope. -/
structure Given where
  used : List Switch
  config : Option Path
  directory : Option Path
  policy : Option Policy
  globs : List Text
  debounce : Option Nat
  words : List Text

def Given.nothing : Given :=
  ⟨[], none, none, none, [], none, []⟩

/-- Why a command line is not run. -/
inductive Stop where
  | misuse
  | help
  | version
  deriving DecidableEq, Repr

/-- Paths are never empty. -/
def pathValue (t : Text) : Except Stop Path :=
  if t = [] then .error .misuse else .ok ⟨t⟩

/-- A number of 64 bits, with or without a plus sign. -/
def wordValue (t : Text) : Except Stop Nat :=
  let ds : Text := match t with
    | '+' :: ds => ds
    | ds => ds
  let n := ds.foldl (fun a d => a * 10 + (d.toNat - '0'.toNat)) 0
  if ds ≠ [] ∧ ds.all Char.isDigit ∧ n < Nat.pow 2 64 then .ok n else .error .misuse

def Given.take (scope : Scope) (g : Given) : Item → Except Stop Given
  | .malformed => .error .misuse
  | .word w =>
    if scope.takesWord g.words.length ∧ (scope = .tangle → w ≠ []) then
      .ok { g with words := g.words ++ [w] }
    else .error .misuse
  | .switch s value =>
    if s ∈ g.used ∧ s ≠ .glob then .error .misuse
    else
      let g := { g with used := s :: g.used }
      let v := value.getD []
      match s with
      | .help => .error .help
      | .version => .error .version
      | .config => (pathValue v).map fun p => { g with config := some p }
      | .directory => (pathValue v).map fun p => { g with directory := some p }
      | .policy =>
        match Policy.ofText? v with
        | some p => .ok { g with policy := some p }
        | none => .error .misuse
      | .glob => .ok { g with globs := g.globs ++ [v] }
      | .debounce => (wordValue v).map fun n => { g with debounce := some n }
      | .verbose | .dryRun | .quiet | .json => .ok g

def Given.has (g : Given) (s : Switch) : Bool :=
  s ∈ g.used

def collect (scope : Scope) (its : List Item) : Except Stop Given :=
  its.foldlM (Given.take scope) .nothing

/-- What to do, once the project is there. -/
inductive Action where
  | tangle (dryRun quiet : Bool) (globs : List Text) (files : List Path)
  | display (target : Text)
  | list (json : Bool)
  | watch (debounce : Option Nat)
  deriving DecidableEq, Repr

structure Invocation where
  config : Option Path
  directory : Option Path
  verbose : Bool
  policy : Option Policy
  action : Action
  deriving DecidableEq, Repr

def action (scope : Scope) (g : Given) : Except Stop Action :=
  match scope with
  | .tangle => .ok (.tangle (g.has .dryRun) (g.has .quiet) g.globs (g.words.map Path.mk))
  | .display =>
    match g.words with
    | [target] => .ok (.display target)
    | _ => .error .misuse
  | .list => .ok (.list (g.has .json))
  | .watch => .ok (.watch g.debounce)
  | .global => .error .misuse

def parse (args : List Text) : Except Stop Invocation := do
  let (front, rest) := items .global none args
  let outer ← collect .global front
  match rest with
  | [] => .error .misuse
  | name :: rest =>
    match Scope.ofName? name with
    | some scope =>
      let inner ← collect scope (items scope none rest).1
      let act ← action scope inner
      return {
        config := inner.config.or outer.config
        directory := inner.directory.or outer.directory
        verbose := outer.has .verbose || inner.has .verbose
        policy := inner.policy.or outer.policy
        action := act }
    | none =>
      if name = "help".toList ∧ rest.length ≤ 1 ∧
          rest.all (fun t => (Scope.ofName? t).isSome || t = "help".toList) then .error .help
      else .error .misuse

def versionText : Text :=
  "mdtangle 0.1.0\n".toList

def helpText : Text :=
  ("Tangle markdown code blocks into source files\n\n" ++
    "Usage: mdtangle [OPTIONS] <COMMAND>\n\n" ++
    "Commands:\n" ++
    "  tangle [-n|--dry-run] [-q|--quiet] [--glob <GLOB>]... [FILE]...\n" ++
    "  show <TARGET>\n" ++
    "  list [--json]\n" ++
    "  watch [-d|--debounce <MILLISECONDS>]\n\n" ++
    "Options:\n" ++
    "  -c, --config <FILE>\n" ++
    "  -C, --directory <DIRECTORY>\n" ++
    "  -v, --verbose\n" ++
    "      --policy <auto-create|strict>\n" ++
    "  -h, --help\n" ++
    "  -V, --version\n").toList

end Literate.Command
