import Literate.Settings.Basic
import Literate.Toml.Reader

/-! Settings in configuration documents. A document is read as an update, which knows every key it
may hold, or straight as settings, which leave unknown keys aside. -/

namespace Literate

namespace Settings.Decode

open Toml

def text : Value → Option Text
  | .string t => some t
  | _ => none

def texts : Value → Option (List Text)
  | .array vs => vs.mapM text
  | _ => none

def boolean : Value → Option Bool
  | .boolean b => some b
  | _ => none

def count : Value → Option Nat
  | .integer n => if 0 ≤ n then some n.toNat else none
  | _ => none

def path (v : Value) : Option Path :=
  (text v).map Path.mk

def isEmptyValue : Value → Bool
  | .array [] => true
  | .table _ [] => true
  | _ => false

/-- A policy by name, or as the only key of a table with nothing in it. -/
def policy : Value → Option Policy
  | .string t => Policy.ofText? t
  | .table _ [(key, v)] => if isEmptyValue v then Policy.ofText? key else none
  | _ => none

/-- The outer option fails; the inner one is empty if the key is missing. -/
def field? {α : Type} (key : String) (decode : Value → Option α) (es : Entries) :
    Option (Option α) :=
  match es.find? key.toList with
  | none => some none
  | some v => (decode v).map some

/-- Keys other than the two known ones do not matter. The two may also be given by position. A
date counts as a table without known keys. -/
def watch : Value → Option WatchSettings
  | .table _ es => do
    let debounce ← field? "debounce_ms" count es
    let exclude ← field? "exclude" texts es
    some ⟨debounce.getD WatchSettings.defaultDebounce, exclude.getD []⟩
  | .array [] => some ⟨WatchSettings.defaultDebounce, []⟩
  | .array [n] => do
    some ⟨← count n, []⟩
  | .array (n :: ps :: _) => do
    some ⟨← count n, ← texts ps⟩
  | .dateTime _ => some ⟨WatchSettings.defaultDebounce, []⟩
  | _ => none

end Settings.Decode

open Settings Settings.Decode

/-- The keys that a configuration document may hold. -/
def Settings.keys : List Text :=
  ["source_patterns".toList, "exclude".toList, "output_dir".toList, "default_filename".toList,
    "file_policy".toList, "languages".toList, "trim_output".toList, "watch".toList]

def Update.ofEntries (es : Toml.Entries) : Option Update :=
  if es.keys.all (Settings.keys.contains ·) then do
    some {
      sourcePatterns := ← field? "source_patterns" texts es
      exclude := ← field? "exclude" texts es
      outputDir := ← field? "output_dir" path es
      defaultFile := ← field? "default_filename" text es
      policy := ← field? "file_policy" Decode.policy es
      languages := ← field? "languages" texts es
      trimOutput := ← field? "trim_output" boolean es
      watch := ← field? "watch" Decode.watch es }
  else none

/-- Every missing key has a default of its own. -/
def Settings.ofEntries (es : Toml.Entries) : Option Settings := do
  some {
    sourcePatterns := (← field? "source_patterns" texts es).getD defaultSourcePatterns
    exclude := (← field? "exclude" texts es).getD defaultExclude
    outputDir := ← field? "output_dir" path es
    defaultFile := (← field? "default_filename" text es).getD Literate.defaultFile
    policy := (← field? "file_policy" Decode.policy es).getD .autoCreate
    languages := (← field? "languages" texts es).getD []
    trimOutput := (← field? "trim_output" boolean es).getD true
    watch := (← field? "watch" Decode.watch es).getD .default }

def Update.read (t : Text) : Except Fault Update :=
  ((Toml.read t).bind Update.ofEntries).elim (.error .toml) .ok

def Settings.read (t : Text) : Except Fault Settings :=
  ((Toml.read t).bind Settings.ofEntries).elim (.error .toml) .ok

end Literate
