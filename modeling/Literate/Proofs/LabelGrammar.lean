import Literate.Proofs.Characters
import Mathlib.Data.List.Basic

/-!
# The grammar of labels

`Label.Written file raw a` says how labels are written, `language > file#section` with every part
optional, and what they mean. Reading a text gives exactly what it is written for, so no text can be
written for two different labels. The same reading is put together from small parsers, each of
which may fail; the parser of the whole label does not, and refused texts are those of which it
leaves something over.
-/

namespace Literate

namespace Label

/-- A language as it stands before the `>`: trimmed, and missing when nothing is left. -/
def tag (t : Text) : Option Text :=
  if Text.trim t = [] then none else some (Text.trim t)

/-- A section as it is written after the file. -/
def hashed : Option Text → Text
  | none => []
  | some bare => '#' :: bare

/-- The text names a file, or none with the empty name, and perhaps a section of it: blanks, a run
of file characters, a `#` with a name if there is a section, and blanks. -/
inductive Place : Text → Text → Option Text → Prop where
  | intro {before name after : Text} {part : Option Text}
      (before_blank : ∀ c ∈ before, isBlank c = true)
      (name_chars : ∀ c ∈ name, isFileChar c = true)
      (part_text : ∀ bare ∈ part, IsSectionText bare)
      (after_blank : ∀ c ∈ after, isBlank c = true) :
      Place (before ++ (name ++ (hashed part ++ after))) name part

/-- `raw` is a label and `a` is what it says, when blocks that name no file go to `file`. -/
inductive Written (file : Text) : Text → Label → Prop where
  | plain {raw : Text} (undirected : '>' ∉ raw) : Written file raw ⟨tag raw, file, .root⟩
  | directed {language cs name : Text} {part : Option Text} (undirected : '>' ∉ language)
      (place : Place cs name part) :
      Written file (language ++ '>' :: cs)
        ⟨tag language, if name = [] then file else name, (part.map SectionName.ofText).getD .root⟩

/-- What is wrong with a label, from the text that is left over. -/
def problem (rest : Text) : LabelProblem :=
  if rest = ['#'] then .missingName else .unexpected rest

section Parts
variable {cs name rest : Text} {part : Option Text}

theorem sectionPart_hashed (part_text : ∀ bare ∈ part, IsSectionText bare)
    (rest_blank : ∀ c ∈ rest, isBlank c = true) :
    sectionPart (hashed part ++ rest) = (part, rest) := by
  have hstop : ∀ c ∈ rest.head?, isSectionChar c = false :=
    head?_of_class rest_blank fun c hc => isSectionChar_of_isBlank hc
  cases part with
  | none =>
    cases rest with
    | nil => rfl
    | cons c rest =>
      have hc : c ≠ '#' := by
        rintro rfl
        exact absurd (rest_blank '#' List.mem_cons_self) (by decide)
      simp [hashed, sectionPart, hc]
  | some bare =>
    obtain ⟨nonempty, chars⟩ := part_text bare rfl
    obtain ⟨c, bare, rfl⟩ := List.exists_cons_of_ne_nil nonempty
    simp only [hashed, List.cons_append, sectionPart]
    rw [← List.cons_append, takeWhile_run chars hstop, dropWhile_run chars hstop]

theorem eq_of_sectionPart (h : sectionPart cs = (part, rest)) :
    (∀ bare ∈ part, IsSectionText bare) ∧ cs = hashed part ++ rest := by
  unfold sectionPart at h
  split at h
  · rename_i cs
    split at h
    · cases h
      exact ⟨by simp, rfl⟩
    · rename_i hne
      cases h
      refine ⟨?_, by simp [hashed]⟩
      rintro bare ⟨⟩
      exact ⟨hne, fun c hc => List.mem_takeWhile_imp hc⟩
  · cases h
    exact ⟨by simp, rfl⟩

theorem dropWhile_isBlank_place {after : Text} (part : Option Text)
    (name_chars : ∀ c ∈ name, isFileChar c = true)
    (after_blank : ∀ c ∈ after, isBlank c = true) :
    (name ++ (hashed part ++ after)).dropWhile isBlank = name ++ (hashed part ++ after) ∨
      name = [] ∧ part = none ∧ (name ++ (hashed part ++ after)).dropWhile isBlank = [] := by
  cases name with
  | cons c name =>
    left
    have hc := isBlank_of_isFileChar (name_chars c List.mem_cons_self)
    simp [hc]
  | nil =>
    cases part with
    | some bare =>
      left
      simp [hashed, show isBlank '#' = false by decide]
    | none =>
      right
      refine ⟨rfl, rfl, ?_⟩
      exact List.dropWhile_eq_nil_iff.2 after_blank

theorem destination_of_place (h : Place cs name part) : destination cs = (name, part, []) := by
  cases h with
  | @intro before _ after _ before_blank name_chars part_text after_blank =>
    have hblanks : (before ++ (name ++ (hashed part ++ after))).dropWhile isBlank =
        (name ++ (hashed part ++ after)).dropWhile isBlank :=
      List.dropWhile_append_of_pos before_blank
    have hstop : ∀ c ∈ (hashed part ++ after).head?, isFileChar c = false := by
      cases part with
      | some bare =>
        rintro c ⟨⟩
        decide
      | none => exact head?_of_class after_blank fun c hc => isFileChar_of_isBlank hc
    -- with neither a file nor a section all blanks are read at once
    rcases dropWhile_isBlank_place part name_chars after_blank with h | ⟨rfl, rfl, h⟩
    · simp only [destination, hblanks, h, takeWhile_run name_chars hstop,
        dropWhile_run name_chars hstop, sectionPart_hashed part_text after_blank]
      rw [List.dropWhile_eq_nil_iff.2 after_blank]
    · simp only [destination, hblanks, h]
      rfl

theorem place_of_destination (h : destination cs = (name, part, [])) : Place cs name part := by
  rcases hpart : sectionPart ((cs.dropWhile isBlank).dropWhile isFileChar) with ⟨part', after⟩
  obtain ⟨part_text, hrest⟩ := eq_of_sectionPart hpart
  simp only [destination, hpart, Prod.mk.injEq] at h
  obtain ⟨rfl, rfl, hafter⟩ := h
  have hcs : cs = cs.takeWhile isBlank ++
      ((cs.dropWhile isBlank).takeWhile isFileChar ++ (hashed part' ++ after)) := by
    rw [← hrest, List.takeWhile_append_dropWhile, List.takeWhile_append_dropWhile]
  have hplace : Place (cs.takeWhile isBlank ++
      ((cs.dropWhile isBlank).takeWhile isFileChar ++ (hashed part' ++ after))) _ part' :=
    .intro (fun c hc => List.mem_takeWhile_imp hc) (fun c hc => List.mem_takeWhile_imp hc)
      part_text (List.dropWhile_eq_nil_iff.1 hafter)
  rwa [← hcs] at hplace

end Parts

section Reading
variable {file raw language cs : Text}

theorem languageTag_eq (raw : Text) : languageTag raw = tag (raw.takeWhile (· ≠ '>')) := by
  unfold languageTag tag
  split <;> simp_all

theorem ne_of_undirected (undirected : '>' ∉ raw) : ∀ c ∈ raw, decide (c ≠ '>') = true := by
  intro c hc
  exact decide_eq_true fun h => undirected (h ▸ hc)

theorem takeWhile_directed (undirected : '>' ∉ language) (cs : Text) :
    (language ++ '>' :: cs).takeWhile (· ≠ '>') = language ∧
      (language ++ '>' :: cs).dropWhile (· ≠ '>') = '>' :: cs := by
  have chars := ne_of_undirected undirected
  have stop : ∀ c ∈ ('>' :: cs).head?, decide (c ≠ '>') = false := by simp
  exact ⟨takeWhile_run chars stop, dropWhile_run chars stop⟩

theorem takeWhile_plain (undirected : '>' ∉ raw) :
    raw.takeWhile (· ≠ '>') = raw ∧ raw.dropWhile (· ≠ '>') = [] := by
  have chars := ne_of_undirected undirected
  exact ⟨List.takeWhile_eq_self_iff.2 chars, List.dropWhile_eq_nil_iff.2 chars⟩

theorem languageTag_plain (undirected : '>' ∉ raw) : languageTag raw = tag raw := by
  rw [languageTag_eq, (takeWhile_plain undirected).1]

theorem languageTag_directed (undirected : '>' ∉ language) :
    languageTag (language ++ '>' :: cs) = tag language := by
  rw [languageTag_eq, (takeWhile_directed undirected cs).1]

theorem read_plain (undirected : '>' ∉ raw) : read file raw = .ok ⟨tag raw, file, .root⟩ := by
  simp only [read, (takeWhile_plain undirected).2, languageTag_plain undirected]

theorem read_directed_of_nil {name : Text} {part : Option Text} (undirected : '>' ∉ language)
    (h : destination cs = (name, part, [])) :
    read file (language ++ '>' :: cs) =
      .ok ⟨tag language, if name = [] then file else name,
        (part.map SectionName.ofText).getD .root⟩ := by
  simp only [read, (takeWhile_directed undirected cs).2, h, languageTag_directed undirected]

theorem read_directed_of_ne_nil {name rest : Text} {part : Option Text}
    (undirected : '>' ∉ language) (h : destination cs = (name, part, rest)) (hrest : rest ≠ []) :
    read file (language ++ '>' :: cs) =
      .error (.label (language ++ '>' :: cs) none (problem rest)) := by
  simp only [read, (takeWhile_directed undirected cs).2, h]
  split
  · simp_all
  · simp_all [problem]
  · simp_all [problem]

/-- Every text is undirected or has a first `>`. -/
theorem undirected_or_directed (raw : Text) :
    '>' ∉ raw ∨ ∃ language cs, '>' ∉ language ∧ raw = language ++ '>' :: cs := by
  by_cases h : '>' ∈ raw
  · obtain ⟨language, cs, rfl, undirected⟩ := List.eq_append_cons_of_mem h
    exact .inr ⟨language, cs, undirected, rfl⟩
  · exact .inl h

theorem read_of_written {a : Label} (h : Written file raw a) : read file raw = .ok a := by
  cases h with
  | plain undirected => exact read_plain undirected
  | directed undirected place =>
    exact read_directed_of_nil undirected (destination_of_place place)

theorem written_or_error (file raw : Text) :
    (∃ a, Written file raw a) ∨ ∃ p, read file raw = .error (.label raw none p) := by
  rcases undirected_or_directed raw with undirected | ⟨language, cs, undirected, rfl⟩
  · exact .inl ⟨_, .plain undirected⟩
  · rcases h : destination cs with ⟨name, part, rest⟩
    by_cases hrest : rest = []
    · subst hrest
      exact .inl ⟨_, .directed undirected (place_of_destination h)⟩
    · exact .inr ⟨_, read_directed_of_ne_nil undirected h hrest⟩

/-- A text is read as what it is written for. -/
theorem read_eq_ok_iff {a : Label} : read file raw = .ok a ↔ Written file raw a := by
  constructor
  · intro h
    rcases written_or_error file raw with ⟨b, hb⟩ | ⟨p, hp⟩
    · rw [read_of_written hb] at h
      cases h
      exact hb
    · rw [hp] at h
      cases h
  · exact read_of_written

theorem eq_of_read_eq_error {e : Fault} (h : read file raw = .error e) :
    ∃ p, e = .label raw none p := by
  rcases written_or_error file raw with ⟨b, hb⟩ | ⟨p, hp⟩
  · rw [read_of_written hb] at h
    cases h
  · rw [hp] at h
    cases h
    exact ⟨p, rfl⟩

theorem language_of_written {a : Label} (h : Written file raw a) :
    a.language = languageTag raw := by
  cases h with
  | plain undirected => exact (languageTag_plain undirected).symm
  | directed undirected _ => exact (languageTag_directed undirected).symm

end Reading

/-- A parser takes what it reads from the front of the text, or it fails. -/
abbrev Parser := StateT Text Option

namespace Parser

def char (c : Char) : Parser Unit
  | d :: cs => if d = c then some ((), cs) else none
  | [] => none

def run (p : Char → Bool) : Parser Text :=
  fun cs => some (cs.takeWhile p, cs.dropWhile p)

/-- A run of at least one character. -/
def run1 (p : Char → Bool) : Parser Text :=
  fun cs => if cs.takeWhile p = [] then none else some (cs.takeWhile p, cs.dropWhile p)

/-- Reads nothing where the parser would fail. -/
def opt {α : Type} (q : Parser α) : Parser (Option α) := fun cs =>
  match q cs with
  | some (a, rest) => some (some a, rest)
  | none => some (none, cs)

def language : Parser (Option Text) := do
  let text ← run (· ≠ '>')
  return tag text

def sectionName : Parser Text := do
  char '#'
  run1 isSectionChar

def place : Parser (Option Text × Option Text) := do
  char '>'
  let _ ← run isBlank
  let name ← opt (run1 isFileChar)
  let part ← opt sectionName
  return (name, part)

/-- A label in parts: the language, and perhaps a place with a file and a section. -/
def label : Parser (Option Text × Option (Option Text × Option Text)) := do
  let tag ← language
  let place ← opt place
  let _ ← run isBlank
  return (tag, place)

section Steps
variable {α β : Type} {q : Parser α} {next : α → Parser β} {cs rest raw : Text} {a : α}

theorem bind_of_some (h : q cs = some (a, rest)) : (q >>= next) cs = next a rest := by
  simp only [bind, StateT.bind, h, Option.bind]

theorem bind_of_none (h : q cs = none) : (q >>= next) cs = none := by
  simp only [bind, StateT.bind, h, Option.bind]

theorem opt_of_some (h : q cs = some (a, rest)) : opt q cs = some (some a, rest) := by
  simp only [opt, h]

theorem opt_of_none (h : q cs = none) : opt q cs = some (none, cs) := by
  simp only [opt, h]

theorem opt_run1 (p : Char → Bool) (cs : Text) :
    opt (run1 p) cs =
      some (if cs.takeWhile p = [] then none else some (cs.takeWhile p), cs.dropWhile p) := by
  by_cases h : cs.takeWhile p = []
  · have hdrop : cs.dropWhile p = cs := by
      have hsplit := List.takeWhile_append_dropWhile (p := p) (l := cs)
      rwa [h, List.nil_append] at hsplit
    rw [opt_of_none (if_pos h), if_pos h, hdrop]
  · rw [opt_of_some (if_neg h), if_neg h]

theorem opt_sectionName (cs : Text) : opt sectionName cs = some (sectionPart cs) := by
  unfold sectionPart
  split
  · rename_i cs
    have hhash : char '#' ('#' :: cs) = some ((), cs) := rfl
    split
    · rename_i h
      exact opt_of_none ((bind_of_some hhash).trans (if_pos h))
    · rename_i h
      exact opt_of_some ((bind_of_some hhash).trans (if_neg h))
  · rename_i h
    have hhash : char '#' cs = none := by
      cases cs with
      | nil => rfl
      | cons d cs => exact if_neg fun hd => h cs (by rw [hd])
    exact opt_of_none (bind_of_none hhash)

theorem label_plain (undirected : '>' ∉ raw) : label raw = some ((tag raw, none), []) := by
  obtain ⟨htake, hdrop⟩ := takeWhile_plain undirected
  have hlanguage : language raw = some (tag raw, []) := by
    have hrun : run (· ≠ '>') raw = some (raw, []) := by rw [run, htake, hdrop]
    exact bind_of_some hrun
  have hplace : opt place [] = some (none, []) := opt_of_none (bind_of_none rfl)
  exact (bind_of_some hlanguage).trans (bind_of_some hplace)

theorem label_directed {before name : Text} {part : Option Text} (undirected : '>' ∉ before)
    (h : destination cs = (name, part, rest)) :
    label (before ++ '>' :: cs) =
      some ((tag before, some (if name = [] then none else some name, part)), rest) := by
  obtain ⟨htake, hdrop⟩ := takeWhile_directed undirected cs
  have hlanguage : language (before ++ '>' :: cs) = some (tag before, '>' :: cs) := by
    have hrun : run (· ≠ '>') (before ++ '>' :: cs) = some (before, '>' :: cs) := by
      rw [run, htake, hdrop]
    exact bind_of_some hrun
  rcases hpart : sectionPart ((cs.dropWhile isBlank).dropWhile isFileChar) with ⟨part', after⟩
  simp only [destination, hpart, Prod.mk.injEq] at h
  obtain ⟨rfl, rfl, rfl⟩ := h
  have hsection := opt_sectionName ((cs.dropWhile isBlank).dropWhile isFileChar)
  rw [hpart] at hsection
  have hplace : place ('>' :: cs) = some ((_, part'), after) :=
    (bind_of_some rfl).trans <| (bind_of_some rfl).trans <|
      (bind_of_some (opt_run1 isFileChar (cs.dropWhile isBlank))).trans (bind_of_some hsection)
  exact (bind_of_some hlanguage).trans (bind_of_some (opt_of_some hplace))

end Steps

end Parser

/-- The label that the parts stand for, if nothing is left over. -/
def conclude (file raw : Text) (language : Option Text)
    (place : Option (Option Text × Option Text)) (rest : Text) : Except Fault Label :=
  let (name, part) := place.getD (none, none)
  if rest = [] then .ok ⟨language, name.getD file, (part.map SectionName.ofText).getD .root⟩
  else .error (.label raw none (problem rest))

/-- The parser never fails, and reading is what follows from the parts and the text left over. -/
theorem read_eq_conclude (file raw : Text) :
    ∃ language place rest, Parser.label raw = some ((language, place), rest) ∧
      read file raw = conclude file raw language place rest := by
  rcases undirected_or_directed raw with undirected | ⟨before, cs, undirected, rfl⟩
  · exact ⟨tag raw, none, [], Parser.label_plain undirected, read_plain undirected⟩
  · rcases h : destination cs with ⟨name, part, rest⟩
    refine ⟨_, _, rest, Parser.label_directed undirected h, ?_⟩
    by_cases hrest : rest = []
    · subst hrest
      rw [read_directed_of_nil undirected h, conclude]
      by_cases hname : name = []
      · simp [hname]
      · simp [hname]
    · rw [read_directed_of_ne_nil undirected h hrest, conclude]
      simp [hrest]

/-- Reading accepts exactly the texts that are written as labels, and gives what they are written
for; the language is the one that is read off without looking at the rest. A refused text is
named in full in the failure, without a location, and what is wrong with it is told from the text
that the parser, which never fails itself, has left over. -/
theorem read_iff_written (file raw : Text) :
    (∀ a, read file raw = .ok a ↔ Written file raw a) ∧
      (∀ a, read file raw = .ok a → a.language = languageTag raw) ∧
      (∀ e, read file raw = .error e → ∃ p, e = .label raw none p) ∧
      ∃ language place rest, Parser.label raw = some ((language, place), rest) ∧
        read file raw = conclude file raw language place rest :=
  ⟨fun _ => read_eq_ok_iff, fun _ h => language_of_written (read_eq_ok_iff.1 h),
    fun _ => eq_of_read_eq_error, read_eq_conclude file raw⟩

end Label

end Literate
