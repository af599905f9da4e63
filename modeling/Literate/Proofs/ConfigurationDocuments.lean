import Literate.Proofs.Sequences
import Literate.Settings.Reader
import Mathlib.Data.List.Basic

/-!
# Two ways to read a configuration document

A document is read as an update, which is merged into the default settings, or straight as settings.
The defaults come from different places: a reader of settings has one for each missing key, a table
for watching has its own, and an update leaves a key open and takes what it is merged into. Still
both ways lead to the settings that the entries of the document describe, key by key; they only
differ in that an update refuses unknown keys.
-/

namespace Literate

namespace Settings

open Toml Settings.Decode

/-- The value that entries give to a key: what is written there, or the default. -/
inductive Given {α : Type} (es : Entries) (key : String) (decode : Value → Option α)
    (default : α) : α → Prop where
  | written {v : Value} {a : α} (found : es.find? key.toList = some v)
      (decoded : decode v = some a) : Given es key decode default a
  | missing (absent : es.find? key.toList = none) : Given es key decode default default

/-- The entries give these settings, with the default settings for the keys that are missing. -/
structure Describes (es : Entries) (s : Settings) : Prop where
  sourcePatterns : Given es "source_patterns" texts Settings.default.sourcePatterns s.sourcePatterns
  exclude : Given es "exclude" texts Settings.default.exclude s.exclude
  outputDir : Given es "output_dir" (fun v => (path v).map some) Settings.default.outputDir
    s.outputDir
  defaultFile : Given es "default_filename" text Settings.default.defaultFile s.defaultFile
  policy : Given es "file_policy" Decode.policy Settings.default.policy s.policy
  languages : Given es "languages" texts Settings.default.languages s.languages
  trimOutput : Given es "trim_output" boolean Settings.default.trimOutput s.trimOutput
  watch : Given es "watch" Decode.watch Settings.default.watch s.watch

variable {α : Type} {es : Entries} {key : String} {decode : Value → Option α} {s : Settings}

theorem given_iff {d a : α} :
    Given es key decode d a ↔ ∃ o, field? key decode es = some o ∧ o.getD d = a := by
  constructor
  · intro h
    cases h with
    | written found decoded => exact ⟨some a, by simp [field?, found, decoded], rfl⟩
    | missing absent => exact ⟨none, by simp [field?, absent], rfl⟩
  · intro h
    obtain ⟨o, ho, rfl⟩ := h
    unfold field? at ho
    split at ho
    · rename_i absent
      cases ho
      exact .missing absent
    · rename_i v found
      obtain ⟨a, decoded, rfl⟩ := Option.map_eq_some_iff.1 ho
      exact .written found decoded

/-- A setting that may be empty has no other default. -/
theorem given_some_iff {o : Option α} :
    Given es key (fun v => (decode v).map some) none o ↔ field? key decode es = some o := by
  unfold field?
  constructor
  · intro h
    cases h with
    | written found decoded =>
      rw [found]
      exact decoded
    | missing absent => rw [absent]
  · intro h
    split at h
    · rename_i absent
      cases h
      exact .missing absent
    · rename_i v found
      exact .written found h

/-- A table for watching may be filled in part; its missing keys get the default settings. -/
theorem watch_table_iff {origin : Origin} {w : WatchSettings} :
    Decode.watch (.table origin es) = some w ↔
      Given es "debounce_ms" count Settings.default.watch.debounce w.debounce ∧
        Given es "exclude" texts Settings.default.watch.exclude w.exclude := by
  unfold Decode.watch
  simp only [Option.bind_eq_bind, Option.bind_eq_some_iff, Option.some.injEq]
  constructor
  · intro h
    obtain ⟨_, hdebounce, _, hexclude, rfl⟩ := h
    exact ⟨given_iff.2 ⟨_, hdebounce, rfl⟩, given_iff.2 ⟨_, hexclude, rfl⟩⟩
  · intro h
    obtain ⟨_, hdebounce, hw₁⟩ := given_iff.1 h.1
    obtain ⟨_, hexclude, hw₂⟩ := given_iff.1 h.2
    refine ⟨_, hdebounce, _, hexclude, ?_⟩
    rw [show w = ⟨w.debounce, w.exclude⟩ from rfl, ← hw₁, ← hw₂]
    rfl

end Settings

open Toml Settings Settings.Decode

variable {es : Entries} {u : Update} {s : Settings} {t : Text}

/-- The update holds what is written under each key. -/
structure Update.IsWritten (es : Entries) (u : Update) : Prop where
  sourcePatterns : field? "source_patterns" texts es = some u.sourcePatterns
  exclude : field? "exclude" texts es = some u.exclude
  outputDir : field? "output_dir" path es = some u.outputDir
  defaultFile : field? "default_filename" text es = some u.defaultFile
  policy : field? "file_policy" Decode.policy es = some u.policy
  languages : field? "languages" texts es = some u.languages
  trimOutput : field? "trim_output" boolean es = some u.trimOutput
  watch : field? "watch" Decode.watch es = some u.watch

/-- Entries without unknown keys. -/
def Settings.KnowsKeys (es : Entries) : Prop :=
  ∀ key ∈ es.keys, key ∈ Settings.keys

theorem Update.ofEntries_eq_some_iff :
    Update.ofEntries es = some u ↔ KnowsKeys es ∧ u.IsWritten es := by
  have hknown : es.keys.all (Settings.keys.contains ·) = true ↔ KnowsKeys es := by
    simp [KnowsKeys, List.all_eq_true]
  unfold Update.ofEntries
  split
  · rename_i hall
    simp only [Option.bind_eq_bind, Option.bind_eq_some_iff, Option.some.injEq]
    constructor
    · intro h
      obtain ⟨_, hpatterns, _, hexclude, _, hdir, _, hfile, _, hpolicy, _, hlanguages, _, htrim,
        _, hwatch, rfl⟩ := h
      exact ⟨hknown.1 hall, hpatterns, hexclude, hdir, hfile, hpolicy, hlanguages, htrim, hwatch⟩
    · intro h
      obtain ⟨_, h⟩ := h
      exact ⟨_, h.sourcePatterns, _, h.exclude, _, h.outputDir, _, h.defaultFile, _, h.policy,
        _, h.languages, _, h.trimOutput, _, h.watch, rfl⟩
  · rename_i hunknown
    constructor
    · intro h
      cases h
    · intro h
      exact absurd (hknown.2 h.1) hunknown

/-- The defaults of the single keys are those of the default settings. -/
theorem Settings.ofEntries_eq_some_iff :
    Settings.ofEntries es = some s ↔ ∃ u : Update, u.IsWritten es ∧ u.mergeInto .default = s := by
  unfold Settings.ofEntries
  simp only [Option.bind_eq_bind, Option.bind_eq_some_iff, Option.some.injEq]
  constructor
  · intro h
    obtain ⟨_, hpatterns, _, hexclude, _, hdir, _, hfile, _, hpolicy, _, hlanguages, _, htrim,
      _, hwatch, rfl⟩ := h
    refine ⟨⟨_, _, _, _, _, _, _, _⟩,
      ⟨hpatterns, hexclude, hdir, hfile, hpolicy, hlanguages, htrim, hwatch⟩, ?_⟩
    simp only [Update.mergeInto, Settings.default, Option.or_none]
  · intro h
    obtain ⟨u, h, rfl⟩ := h
    refine ⟨_, h.sourcePatterns, _, h.exclude, _, h.outputDir, _, h.defaultFile, _, h.policy,
      _, h.languages, _, h.trimOutput, _, h.watch, ?_⟩
    simp only [Update.mergeInto, Settings.default, Option.or_none]

theorem Settings.describes_iff :
    Describes es s ↔ ∃ u : Update, u.IsWritten es ∧ u.mergeInto .default = s := by
  constructor
  · intro h
    obtain ⟨_, hpatterns, hs₁⟩ := given_iff.1 h.sourcePatterns
    obtain ⟨_, hexclude, hs₂⟩ := given_iff.1 h.exclude
    obtain ⟨_, hfile, hs₄⟩ := given_iff.1 h.defaultFile
    obtain ⟨_, hpolicy, hs₅⟩ := given_iff.1 h.policy
    obtain ⟨_, hlanguages, hs₆⟩ := given_iff.1 h.languages
    obtain ⟨_, htrim, hs₇⟩ := given_iff.1 h.trimOutput
    obtain ⟨_, hwatch, hs₈⟩ := given_iff.1 h.watch
    refine ⟨⟨_, _, _, _, _, _, _, _⟩, ⟨hpatterns, hexclude, given_some_iff.1 h.outputDir, hfile,
      hpolicy, hlanguages, htrim, hwatch⟩, ?_⟩
    have hdir : s.outputDir.or Settings.default.outputDir = s.outputDir := Option.or_none
    simp only [Update.mergeInto, hs₁, hs₂, hdir, hs₄, hs₅, hs₆, hs₇, hs₈]
  · intro h
    obtain ⟨u, h, rfl⟩ := h
    refine ⟨given_iff.2 ⟨_, h.sourcePatterns, rfl⟩, given_iff.2 ⟨_, h.exclude, rfl⟩, ?_,
      given_iff.2 ⟨_, h.defaultFile, rfl⟩, given_iff.2 ⟨_, h.policy, rfl⟩,
      given_iff.2 ⟨_, h.languages, rfl⟩, given_iff.2 ⟨_, h.trimOutput, rfl⟩,
      given_iff.2 ⟨_, h.watch, rfl⟩⟩
    have hdir : u.outputDir.or Settings.default.outputDir = u.outputDir := Option.or_none
    apply given_some_iff.2
    rw [h.outputDir, Update.mergeInto, hdir]

theorem Settings.read_eq_ok_iff :
    Settings.read t = .ok s ↔ ∃ es, Toml.read t = some es ∧ Describes es s := by
  unfold Settings.read
  rw [elim_eq_ok_iff, Option.bind_eq_some_iff]
  simp only [Settings.ofEntries_eq_some_iff, Settings.describes_iff]

theorem Update.read_eq_ok_iff :
    Update.read t = .ok u ↔ ∃ es, Toml.read t = some es ∧ KnowsKeys es ∧ u.IsWritten es := by
  unfold Update.read
  rw [elim_eq_ok_iff, Option.bind_eq_some_iff]
  simp only [Update.ofEntries_eq_some_iff]

/-- A document is accepted as an update, and merged into the defaults gives some settings, exactly
if it is accepted as these very settings and has no unknown key. They are the settings that its
entries describe key by key, and so are those of a table for watching. -/
theorem Settings.exists_merged_iff_read (t : Text) (s : Settings) :
    ((∃ u, Update.read t = .ok u ∧ u.mergeInto .default = s) ↔
      Settings.read t = .ok s ∧ ∃ es, Toml.read t = some es ∧ KnowsKeys es) ∧
    (Settings.read t = .ok s ↔ ∃ es, Toml.read t = some es ∧ Describes es s) ∧
    ∀ origin es w, Decode.watch (.table origin es) = some w ↔
      Given es "debounce_ms" count Settings.default.watch.debounce w.debounce ∧
        Given es "exclude" texts Settings.default.watch.exclude w.exclude := by
  refine ⟨?_, Settings.read_eq_ok_iff, fun _ _ _ => watch_table_iff⟩
  rw [Settings.read_eq_ok_iff]
  constructor
  · intro h
    obtain ⟨u, hread, hmerge⟩ := h
    obtain ⟨es, hes, hknown, hwritten⟩ := Update.read_eq_ok_iff.1 hread
    exact ⟨⟨es, hes, describes_iff.2 ⟨u, hwritten, hmerge⟩⟩, es, hes, hknown⟩
  · intro h
    obtain ⟨⟨es, hes, hdescribes⟩, es', hes', hknown⟩ := h
    cases hes.symm.trans hes'
    obtain ⟨u, hwritten, hmerge⟩ := describes_iff.1 hdescribes
    exact ⟨u, Update.read_eq_ok_iff.2 ⟨es, hes, hknown, hwritten⟩, hmerge⟩

/-- A table for watching with one of its keys, and an unknown key inside it. -/
example :
    let t := "languages = ['js']\n[watch]\nexclude = ['x']\ny = 1\n".toList
    let s : Settings := { Settings.default with
      languages := ["js".toList], watch := ⟨100, ["x".toList]⟩ }
    (Update.read t).map (·.mergeInto .default) = .ok s ∧ Settings.read t = .ok s := by
  intro t s
  exact ⟨by decide +kernel, by decide +kernel⟩

end Literate
