import Literate.Proofs.FirstOccurrence

/-!
# A store is the grouping of its accepted calls

A call registers a file or adds a block. `Store.grouping` groups what accepted calls contribute, by
file and then by section, without any updating. After any run of calls on an empty store, some of
them refused, the store is the grouping of the accepted ones.
-/

namespace Literate

inductive Call where
  | register (name : Option Text)
  | add (b : Block)
  deriving DecidableEq, Repr

/-- What an accepted call contributes: a file and, for a block, a section of it and a text. -/
structure Contribution where
  file : Text
  block : Option (SectionName × Text)
  deriving DecidableEq, Repr

/-- Where the call leads when blocks without a file go to `file`; none for a malformed label. -/
def Call.contribution? (file : Text) : Call → Option Contribution
  | .register name => some ⟨name.getD file, none⟩
  | .add b =>
    match Label.read file (b.label.getD []) with
    | .ok a => some ⟨a.file, some (a.sectionName, b.text)⟩
    | .error _ => none

namespace Store

/-- The store after a call, and the fault of a refused one. -/
def apply (s : Store) : Call → Store × Option Fault
  | .register name => s.register name
  | .add b => s.add b

def run (s : Store) : List Call → Store
  | [] => s
  | c :: cs => (s.apply c).1.run cs

/-- The calls that are not refused when their turn comes. -/
def accepted (s : Store) : List Call → List Call
  | [] => []
  | c :: cs =>
    match s.apply c with
    | (s', none) => c :: s'.accepted cs
    | (s', some _) => s'.accepted cs

end Store

namespace Contribution

def blocksFor (file : Text) (es : List Contribution) : List (SectionName × Text) :=
  es.filterMap fun e => if e.file = file then e.block else none

/-- The section of that name: the texts of its blocks in order, and each section that they refer
to by first occurrence. -/
def sectionFrom (file : Text) (blocks : List (SectionName × Text)) (n : SectionName) : Section :=
  let chunks := blocks.filterMap fun b => if b.1 = n then some b.2 else none
  ⟨n, file, chunks, (chunks.flatMap Marker.names).eraseDups⟩

/-- The file of that name: `root`, then the sections of its blocks by first occurrence. -/
def fileFrom (es : List Contribution) (file : Text) : CodeFile :=
  let blocks := blocksFor file es
  ⟨file, (SectionName.root :: blocks.map Prod.fst).eraseDups.map (sectionFrom file blocks)⟩

end Contribution

/-- The grouping of contributions, with the files by first occurrence. -/
def Store.grouping (policy : Policy) (file : Text) (es : List Contribution) : Store :=
  ⟨policy, file, (es.map Contribution.file).eraseDups.map (Contribution.fileFrom es)⟩

namespace Contribution
variable {file : Text} {blocks : List (SectionName × Text)} {es : List Contribution} {n m : SectionName}
  {t : Text}

theorem sectionFrom_of_not_mem (h : n ∉ blocks.map Prod.fst) :
    sectionFrom file blocks n = .empty file n := by
  have hchunks : (blocks.filterMap fun b => if b.1 = n then some b.2 else none) = [] := by
    apply List.filterMap_eq_nil_iff.2
    intro b hb
    exact if_neg fun hbn => h (List.mem_map.2 ⟨b, hb, hbn⟩)
  simp only [sectionFrom, hchunks]
  rfl

theorem sectionFrom_concat_of_ne (h : m ≠ n) :
    sectionFrom file (blocks ++ [(n, t)]) m = sectionFrom file blocks m := by
  simp [sectionFrom, List.filterMap_append, h.symm]

theorem sectionFrom_concat_self :
    sectionFrom file (blocks ++ [(n, t)]) n =
      (sectionFrom file blocks n).push t (Marker.references t) := by
  simp only [sectionFrom, Section.push, Section.addChildren_eraseDups, Marker.references_eq,
    eraseDups_append_eraseDups, List.filterMap_append, List.flatMap_append]
  simp

theorem fileFrom_of_not_mem (h : file ∉ es.map Contribution.file) : fileFrom es file = .empty file := by
  have hblocks : blocksFor file es = [] := by
    apply List.filterMap_eq_nil_iff.2
    intro e he
    exact if_neg fun hef => h (List.mem_map.2 ⟨e, he, hef⟩)
  simp only [fileFrom, hblocks]
  rfl

theorem fileFrom_concat_of_ne {e : Contribution} (h : file ≠ e.file) :
    fileFrom (es ++ [e]) file = fileFrom es file := by
  simp [fileFrom, blocksFor, List.filterMap_append, h.symm]

theorem fileFrom_concat_registered (name : Text) :
    fileFrom (es ++ [⟨name, none⟩]) file = fileFrom es file := by
  simp [fileFrom, blocksFor, List.filterMap_append]

theorem fileFrom_concat_self :
    fileFrom (es ++ [⟨file, some (n, t)⟩]) file =
      (fileFrom es file).push n t (Marker.references t) := by
  have hblocks : blocksFor file (es ++ [⟨file, some (n, t)⟩]) = blocksFor file es ++ [(n, t)] := by
    simp [blocksFor, List.filterMap_append]
  have hnew : n ∉ SectionName.root :: (blocksFor file es).map Prod.fst →
      sectionFrom file (blocksFor file es) n = .empty file n := by
    intro h
    exact sectionFrom_of_not_mem fun hn => h (List.mem_cons_of_mem _ hn)
  have hother : ∀ m, m ≠ n → sectionFrom file (blocksFor file es ++ [(n, t)]) m =
      sectionFrom file (blocksFor file es) m := by
    intro m hm
    exact sectionFrom_concat_of_ne hm
  have hsections := upsert_map_eraseDups Section.name (·.push t (Marker.references t))
    (fun _ => rfl) hother sectionFrom_concat_self hnew
  simp only [fileFrom, hblocks, CodeFile.push, updateSections_eq_upsert, List.map_append,
    List.map_singleton]
  exact congrArg _ hsections.symm

end Contribution

namespace Store
variable {s s' : Store} {policy : Policy} {file : Text} {es : List Contribution} {c : Call}
  {b : Block}

theorem file?_eq_none_iff {name : Text} : s.file? name = none ↔ name ∉ s.names := by
  simp [file?, names]

theorem names_grouping : (grouping policy file es).names = (es.map Contribution.file).eraseDups := by
  simp only [names, grouping, List.map_map]
  exact List.map_id _

theorem mem_names_grouping {name : Text} :
    name ∈ (grouping policy file es).names ↔ name ∈ es.map Contribution.file := by
  rw [names_grouping, List.mem_eraseDups]

theorem fst_apply_of_refused {e : Fault} (h : (s.apply c).2 = some e) : (s.apply c).1 = s := by
  cases c with
  | register name =>
    simp only [apply, register] at h ⊢
    split at h
    · rfl
    · cases h
  | add b =>
    rcases s.refused_or_added b with ⟨e', hb⟩ | ⟨s', hb⟩
    · simp only [apply, hb]
    · simp only [apply, hb] at h
      cases h

theorem apply_register (s : Store) (name : Option Text) :
    s.apply (.register name) =
      if name.getD s.defaultFile ∈ s.names then
        (s, some (.duplicateFile (name.getD s.defaultFile)))
      else ({ s with files := s.files ++ [.empty (name.getD s.defaultFile)] }, none) := by
  simp only [apply, register]
  cases hf : s.file? (name.getD s.defaultFile) with
  | none => simp [file?_eq_none_iff.1 hf]
  | some f =>
    have hmem : name.getD s.defaultFile ∈ s.names := by
      by_contra hn
      rw [file?_eq_none_iff.2 hn] at hf
      cases hf
    simp [hmem]

theorem apply_add_of_error {e : Fault} (h : Label.read s.defaultFile (b.label.getD []) = .error e) :
    s.apply (.add b) = (s, some (e.withLocation b.location)) := by
  simp [apply, add, Block.scan, h]

theorem apply_add_of_ok {a : Label} (h : Label.read s.defaultFile (b.label.getD []) = .ok a) :
    s.apply (.add b) =
      if s.policy = .strict ∧ a.file ∉ s.names then (s, some (.unregisteredFile a.file))
      else
        let change : CodeFile → CodeFile :=
          (·.push a.sectionName b.text (Marker.references b.text))
        ({ s with files := updateFiles a.file change s.files }, none) := by
  simp only [apply, add, Block.scan, h, file?_eq_none_iff]

theorem refused_register_iff (s : Store) (name : Option Text) :
    (∃ e, (s.apply (.register name)).2 = some e) ↔ name.getD s.defaultFile ∈ s.names := by
  rw [apply_register]
  split <;> simp_all

theorem refused_add_iff (s : Store) (b : Block) :
    (∃ e, (s.apply (.add b)).2 = some e) ↔
      (∃ e, Label.read s.defaultFile (b.label.getD []) = .error e) ∨
        ∃ a, Label.read s.defaultFile (b.label.getD []) = .ok a ∧
          s.policy = .strict ∧ a.file ∉ s.names := by
  cases h : Label.read s.defaultFile (b.label.getD []) with
  | error e => simp [apply_add_of_error h]
  | ok a =>
    rw [apply_add_of_ok h]
    split <;> simp_all

theorem grouping_concat_registered {name : Text} (h : name ∉ es.map Contribution.file) :
    grouping policy file (es ++ [⟨name, none⟩]) =
      { grouping policy file es with
        files := (grouping policy file es).files ++ [.empty name] } := by
  have hsame : Contribution.fileFrom (es ++ [⟨name, none⟩]) = Contribution.fileFrom es := by
    funext f
    exact Contribution.fileFrom_concat_registered name
  simp only [grouping, hsame, List.map_append, List.map_singleton, eraseDups_concat, if_neg h,
    Contribution.fileFrom_of_not_mem h]

theorem grouping_concat_block (name : Text) (n : SectionName) (t : Text) :
    grouping policy file (es ++ [⟨name, some (n, t)⟩]) =
      { grouping policy file es with
        files := updateFiles name (·.push n t (Marker.references t))
          (grouping policy file es).files } := by
  have hother : ∀ f, f ≠ name → Contribution.fileFrom (es ++ [⟨name, some (n, t)⟩]) f =
      Contribution.fileFrom es f := by
    intro f hf
    exact Contribution.fileFrom_concat_of_ne hf
  have hnew : name ∉ es.map Contribution.file → Contribution.fileFrom es name = .empty name :=
    Contribution.fileFrom_of_not_mem
  have hupdate := upsert_map_eraseDups CodeFile.name (·.push n t (Marker.references t))
    (fun _ => rfl) hother Contribution.fileFrom_concat_self hnew
  simp only [grouping, updateFiles_eq_upsert, List.map_append, List.map_singleton]
  exact congrArg _ hupdate.symm

/-- An accepted call on a grouping adds its contribution. -/
theorem apply_grouping (h : (grouping policy file es).apply c = (s', none)) :
    ∃ e, c.contribution? file = some e ∧ s' = grouping policy file (es ++ [e]) := by
  cases c with
  | register name =>
    refine ⟨⟨name.getD file, none⟩, rfl, ?_⟩
    rw [apply_register] at h
    split at h
    · cases h
    · rename_i hname
      cases h
      exact (grouping_concat_registered fun hn => hname (mem_names_grouping.2 hn)).symm
  | add b =>
    cases hread : Label.read file (b.label.getD []) with
    | error e =>
      rw [apply_add_of_error hread] at h
      cases h
    | ok a =>
      refine ⟨⟨a.file, some (a.sectionName, b.text)⟩, by simp [Call.contribution?, hread], ?_⟩
      rw [apply_add_of_ok hread] at h
      split at h
      · cases h
      · cases h
        exact (grouping_concat_block a.file a.sectionName b.text).symm

theorem run_grouping (es : List Contribution) (calls : List Call) :
    (grouping policy file es).run calls =
      grouping policy file
        (es ++ ((grouping policy file es).accepted calls).filterMap (Call.contribution? file)) := by
  induction calls generalizing es with
  | nil => simp [run, accepted]
  | cons c cs ih =>
    rw [run, accepted]
    split
    · rename_i s' hs'
      obtain ⟨e, he, rfl⟩ := apply_grouping hs'
      rw [hs', ih, List.filterMap_cons_some he]
      simp
    · rename_i s' e hs'
      have hsame := fst_apply_of_refused (congrArg Prod.snd hs')
      rw [hs'] at hsame ⊢
      dsimp only at hsame ⊢
      rw [hsame, ih]

theorem run_empty (policy : Policy) (file : Text) (calls : List Call) :
    (empty policy file).run calls = grouping policy file
      (((empty policy file).accepted calls).filterMap (Call.contribution? file)) :=
  run_grouping [] calls

theorem nodup_names_grouping : (grouping policy file es).names.Nodup := by
  rw [names_grouping]
  exact nodup_eraseDups _

theorem sections_grouping {f : CodeFile} (hf : f ∈ (grouping policy file es).files) :
    ∃ others, f.sections.map Section.name = .root :: others ∧
      (SectionName.root :: others).Nodup := by
  obtain ⟨name, _, rfl⟩ := List.mem_map.1 hf
  have hnames : (Contribution.fileFrom es name).sections.map Section.name =
      (SectionName.root :: (Contribution.blocksFor name es).map Prod.fst).eraseDups := by
    simp only [Contribution.fileFrom, List.map_map]
    exact List.map_id _
  have hnodup := nodup_eraseDups (.root :: (Contribution.blocksFor name es).map Prod.fst)
  rw [hnames]
  rw [List.eraseDups_cons] at hnodup ⊢
  exact ⟨_, rfl, hnodup⟩

theorem file_of_mem_sections_grouping {f : CodeFile} (hf : f ∈ (grouping policy file es).files)
    {sec : Section} (hsec : sec ∈ f.sections) : sec.file = f.name := by
  obtain ⟨name, _, rfl⟩ := List.mem_map.1 hf
  obtain ⟨n, _, rfl⟩ := List.mem_map.1 hsec
  rfl

/-- After any calls on an empty store, the store is the grouping of the accepted ones: no name
occurs twice, `root` is the first section of every file and the others are written with `#`. A
refused call changes nothing. A registration is refused exactly when the name is taken, and a block
exactly when its label is malformed or its file is unknown to a strict store. -/
theorem run_empty_eq_grouping (policy : Policy) (file : Text) (calls : List Call) :
    let s := (empty policy file).run calls
    let es := ((empty policy file).accepted calls).filterMap (Call.contribution? file)
    s = grouping policy file es ∧ s.names.Nodup ∧
      (∀ f ∈ s.files, (∃ others, f.sections.map Section.name = .root :: others ∧
          (SectionName.root :: others).Nodup ∧ ∀ n ∈ others, n.text.head? = some '#') ∧
        ∀ sec ∈ f.sections, sec.file = f.name) ∧
      (∀ c e, (s.apply c).2 = some e → (s.apply c).1 = s) ∧
      (∀ name, (∃ e, (s.apply (.register name)).2 = some e) ↔ name.getD file ∈ s.names) ∧
      ∀ b, (∃ e, (s.apply (.add b)).2 = some e) ↔
        (∃ e, Label.read file (b.label.getD []) = .error e) ∨
          ∃ a, Label.read file (b.label.getD []) = .ok a ∧ policy = .strict ∧ a.file ∉ s.names := by
  intro s es
  have hs : s = grouping policy file es := run_empty policy file calls
  rw [hs]
  refine ⟨rfl, nodup_names_grouping, fun f hf => ⟨?_, ?_⟩, fun c e => fst_apply_of_refused,
    refused_register_iff _, refused_add_iff _⟩
  · obtain ⟨others, hnames, hnodup⟩ := sections_grouping hf
    refine ⟨others, hnames, hnodup, fun n hn => ?_⟩
    cases n with
    | root => exact absurd hn (List.nodup_cons.1 hnodup).1
    | named bare => rfl
  · exact fun sec hsec => file_of_mem_sections_grouping hf hsec

/-- The second registration of a file is refused and changes nothing. -/
theorem run_empty_eq_grouping_twice :
    let s := (empty .strict ['m']).run [.register none, .add ⟨some ">#x".toList, ['1'], none⟩]
    (s.apply (.register none)).2 = some (.duplicateFile ['m']) ∧
      (s.apply (.register none)).1 = s := by
  intro s
  have hrefused : (s.apply (.register none)).2 = some (.duplicateFile ['m']) := by decide +kernel
  obtain ⟨_, _, _, hsame, _⟩ := run_empty_eq_grouping .strict ['m']
    [.register none, .add ⟨some ">#x".toList, ['1'], none⟩]
  exact ⟨hrefused, hsame _ _ hrefused⟩

end Store

end Literate
