import Literate.Proofs.Expansion
import Literate.Proofs.Grouping

/-!
# Blocks may be interleaved

Rendering reads the texts of the sections that the root reaches and nothing else of a file. A store
gives each section the texts of its blocks in order. So what a file renders to, be it a text or a
failure, depends on the texts for each of its sections only: the order in which sections come up
and the blocks for other files have no part in it.
-/

namespace Literate

open Relation

namespace CodeFile
variable {f g : CodeFile} {n : SectionName}

/-- The texts of a section, if the file has it. -/
def chunks? (f : CodeFile) (n : SectionName) : Option (List Text) :=
  (f.section? n).map Section.chunks

theorem section?_of_chunks?_eq {s : Section} (h : f.chunks? n = g.chunks? n)
    (hs : f.section? n = some s) : ∃ s', g.section? n = some s' ∧ s'.chunks = s.chunks := by
  rw [chunks?, hs, Option.map_some] at h
  exact Option.map_eq_some_iff.1 h.symm

theorem section?_eq_none_of_chunks?_eq (h : f.chunks? n = g.chunks? n)
    (hs : f.section? n = none) : g.section? n = none := by
  rw [chunks?, hs, Option.map_none] at h
  exact Option.map_eq_none_iff.1 h.symm

/-- Two files that agree on every section within reach of `n` render it alike, under any trail. -/
theorem renderSection_congr (hname : f.name = g.name) (n : SectionName) (trail : Trail)
    (hagree : ∀ m, ReflTransGen f.Refers n m → f.chunks? m = g.chunks? m) :
    f.renderSection n trail = g.renderSection n trail := by
  induction n, trail using render_induction (f := f) with
  | underWay n trail hn => rw [renderSection_of_mem hn, renderSection_of_mem hn]
  | unknown n trail hn hs =>
    have hs' := section?_eq_none_of_chunks?_eq (hagree n .refl) hs
    rw [renderSection_of_none hn hs, renderSection_of_none hn hs', hname]
  | found n trail s hn hs ih =>
    obtain ⟨s', hs', hchunks⟩ := section?_of_chunks?_eq (hagree n .refl) hs
    have hfill : ∀ m ∈ s.chunks.flatMap Marker.names,
        f.renderSection m (trail.inside n) = g.renderSection m (trail.inside n) := by
      intro m hm
      have hstep : f.Refers n m := ⟨s, hs, hm⟩
      exact ih m fun k hk => hagree k (.head hstep hk)
    rw [renderSection_of_some hn hs, renderSection_of_some hn hs', hchunks,
      fillChunks_congr renderSection_restores hfill]

theorem render_congr (hname : f.name = g.name)
    (hagree : ∀ m, ReflTransGen f.Refers .root m → f.chunks? m = g.chunks? m) :
    f.render = g.render := by
  rw [render, render, renderSection_congr hname .root _ hagree, hname]

end CodeFile

theorem find?_map_key {κ β : Type} [DecidableEq κ] (key : β → κ) (make : κ → β)
    (hkey : ∀ j, key (make j) = j) (k : κ) (ks : List κ) :
    (ks.map make).find? (fun b => key b = k) = if k ∈ ks then some (make k) else none := by
  induction ks with
  | nil => rfl
  | cons j ks ih =>
    rw [List.map_cons, List.find?_cons, hkey, ih]
    by_cases hjk : j = k
    · simp [hjk]
    · have hkj : k ≠ j := fun h => hjk h.symm
      simp [hjk, hkj]

namespace Contribution
variable {file : Text} {es es' : List Contribution} {n : SectionName}

/-- The texts for a section of a file, in order. -/
def chunksFor (file : Text) (n : SectionName) (es : List Contribution) : List Text :=
  (blocksFor file es).filterMap fun b => if b.1 = n then some b.2 else none

theorem chunksFor_ne_nil_iff :
    chunksFor file n es ≠ [] ↔ n ∈ (blocksFor file es).map Prod.fst := by
  simp [chunksFor]

theorem chunks?_fileFrom (file : Text) (es : List Contribution) (n : SectionName) :
    (fileFrom es file).chunks? n =
      if n = .root ∨ chunksFor file n es ≠ [] then some (chunksFor file n es) else none := by
  have hfound := find?_map_key Section.name (sectionFrom file (blocksFor file es))
    (fun _ => rfl) n (SectionName.root :: (blocksFor file es).map Prod.fst).eraseDups
  simp only [CodeFile.chunks?, CodeFile.section?, fileFrom, hfound, List.mem_eraseDups,
    List.mem_cons, chunksFor_ne_nil_iff]
  split <;> rfl

theorem render_fileFrom_congr (h : ∀ n, chunksFor file n es = chunksFor file n es') :
    (fileFrom es file).render = (fileFrom es' file).render := by
  have hname : (fileFrom es file).name = (fileFrom es' file).name := rfl
  apply CodeFile.render_congr hname
  intro m _
  rw [chunks?_fileFrom, chunks?_fileFrom, h]

/-- A file that only blocks contribute to is there exactly when one of its sections has a text. -/
theorem mem_files_iff (hblocks : ∀ e ∈ es, e.block.isSome) :
    file ∈ es.map Contribution.file ↔ ∃ n, chunksFor file n es ≠ [] := by
  simp only [chunksFor_ne_nil_iff]
  constructor
  · intro hmem
    obtain ⟨e, he, rfl⟩ := List.mem_map.1 hmem
    obtain ⟨⟨n, t⟩, hb⟩ := Option.isSome_iff_exists.1 (hblocks e he)
    exact ⟨n, List.mem_map.2 ⟨(n, t), List.mem_filterMap.2 ⟨e, he, by rw [if_pos rfl, hb]⟩, rfl⟩⟩
  · intro hsome
    obtain ⟨n, hn⟩ := hsome
    obtain ⟨b, hb, _⟩ := List.mem_map.1 hn
    obtain ⟨e, he, hif⟩ := List.mem_filterMap.1 hb
    by_cases hfile : e.file = file
    · exact List.mem_map.2 ⟨e, he, hfile⟩
    · rw [if_neg hfile] at hif
      cases hif

end Contribution

namespace Block

/-- The text of the block, if its label leads to section `n` of `file`. Blocks that name no file go
to `default`. -/
def textFor? (default file : Text) (n : SectionName) (b : Block) : Option Text :=
  match Label.read default (b.label.getD []) with
  | .ok a => if a.file = file ∧ a.sectionName = n then some b.text else none
  | .error _ => none

/-- The texts of the blocks for section `n` of `file`, in order. -/
def textsFor (default file : Text) (n : SectionName) (bs : List Block) : List Text :=
  bs.filterMap (textFor? default file n)

def contributions (default : Text) (bs : List Block) : List Contribution :=
  bs.filterMap fun b => (Call.add b).contribution? default

/-- The label of every block can be read. -/
def AllLabelled (default : Text) (bs : List Block) : Prop :=
  ∀ b ∈ bs, ∃ a, Label.read default (b.label.getD []) = .ok a

instance (default : Text) (bs : List Block) : Decidable (AllLabelled default bs) :=
  decidable_of_iff (∀ b ∈ bs, (Label.read default (b.label.getD [])).isOk = true)
    (forall₂_congr fun b _ => by
      cases Label.read default (b.label.getD []) with
      | error e => simp [Except.isOk, Except.toBool]
      | ok a => simp [Except.isOk, Except.toBool])

theorem contribution?_of_read {default : Text} {b : Block} {a : Label}
    (h : Label.read default (b.label.getD []) = .ok a) :
    (Call.add b).contribution? default = some ⟨a.file, some (a.sectionName, b.text)⟩ := by
  simp only [Call.contribution?, h]

theorem chunksFor_contributions (default file : Text) (n : SectionName) (bs : List Block) :
    Contribution.chunksFor file n (contributions default bs) = textsFor default file n bs := by
  simp only [Contribution.chunksFor, Contribution.blocksFor, contributions, textsFor,
    List.filterMap_filterMap]
  congr 1
  funext b
  cases h : Label.read default (b.label.getD []) with
  | error e => simp [textFor?, Call.contribution?, h]
  | ok a =>
    by_cases hfile : a.file = file
    · simp [textFor?, contribution?_of_read h, h, hfile]
    · simp [textFor?, contribution?_of_read h, h, hfile]

theorem isSome_of_mem_contributions {default : Text} {bs : List Block} :
    ∀ e ∈ contributions default bs, e.block.isSome := by
  intro e he
  obtain ⟨b, _, hb⟩ := List.mem_filterMap.1 he
  cases h : Label.read default (b.label.getD []) with
  | error e =>
    simp only [Call.contribution?, h] at hb
    cases hb
  | ok a =>
    rw [contribution?_of_read h] at hb
    cases hb
    rfl

end Block

namespace Store
variable {default file : Text} {es : List Contribution} {bs bs' : List Block}

theorem render_grouping (policy : Policy) (default file : Text) (es : List Contribution) :
    (grouping policy default es).render file =
      if file ∈ es.map Contribution.file then (Contribution.fileFrom es file).render
      else .error (.missingFile file) := by
  have hfound := find?_map_key CodeFile.name (Contribution.fileFrom es) (fun _ => rfl)
    file (es.map Contribution.file).eraseDups
  simp only [render, file?, grouping, hfound, List.mem_eraseDups]
  split <;> simp_all

theorem add_grouping {b : Block} {a : Label}
    (h : Label.read default (b.label.getD []) = .ok a) :
    (grouping .autoCreate default es).add b =
      (grouping .autoCreate default (es ++ [⟨a.file, some (a.sectionName, b.text)⟩]), none) := by
  have hpolicy : ¬ (Policy.autoCreate = .strict ∧
      (grouping .autoCreate default es).file? a.file = none) := by
    rintro ⟨hstrict, _⟩
    cases hstrict
  have hscan : b.scan default = .ok ⟨a, Marker.references b.text⟩ := by
    simp only [Block.scan, h]
  rw [grouping_concat_block]
  unfold add
  rw [show (grouping .autoCreate default es).defaultFile = default from rfl, hscan]
  exact if_neg hpolicy

/-- Blocks with readable labels are all added, and the store is their grouping. -/
theorem addAll_grouping (es : List Contribution) (hbs : Block.AllLabelled default bs) :
    (grouping .autoCreate default es).addAll bs =
      (grouping .autoCreate default (es ++ Block.contributions default bs), none) := by
  induction bs generalizing es with
  | nil => simp [addAll, Block.contributions]
  | cons b bs ih =>
    obtain ⟨a, ha⟩ := hbs b List.mem_cons_self
    have hrest : Block.AllLabelled default bs := fun c hc => hbs c (List.mem_cons_of_mem b hc)
    have hcons : Block.contributions default (b :: bs) =
        ⟨a.file, some (a.sectionName, b.text)⟩ :: Block.contributions default bs :=
      List.filterMap_cons_some (Block.contribution?_of_read ha)
    rw [hcons, List.append_cons, ← ih _ hrest]
    simp only [addAll, add_grouping ha]

/-- Two lists of blocks that give every section of a file the same texts in the same order make
the file render alike: the same text, or the same failure. -/
theorem render_addAll_eq_of_textsFor (hbs : Block.AllLabelled default bs)
    (hbs' : Block.AllLabelled default bs')
    (htexts : ∀ n, Block.textsFor default file n bs = Block.textsFor default file n bs') :
    ∃ s s', (empty .autoCreate default).addAll bs = (s, none) ∧
      (empty .autoCreate default).addAll bs' = (s', none) ∧ s.render file = s'.render file := by
  refine ⟨_, _, addAll_grouping [] hbs, addAll_grouping [] hbs', ?_⟩
  have hchunks : ∀ n, Contribution.chunksFor file n (Block.contributions default bs) =
      Contribution.chunksFor file n (Block.contributions default bs') := by
    intro n
    rw [Block.chunksFor_contributions, Block.chunksFor_contributions, htexts]
  have hthere : file ∈ (Block.contributions default bs).map Contribution.file ↔
      file ∈ (Block.contributions default bs').map Contribution.file := by
    rw [Contribution.mem_files_iff Block.isSome_of_mem_contributions,
      Contribution.mem_files_iff Block.isSome_of_mem_contributions]
    simp only [hchunks]
  rw [render_grouping, render_grouping]
  simp only [List.nil_append, hthere, Contribution.render_fileFrom_congr hchunks]

/-- The same cycle is reported when its sections come up in reverse, with a block for another file
between them. -/
theorem render_addAll_eq_of_textsFor_reversed :
    let bs : List Block := [⟨none, "<<a>>".toList, none⟩, ⟨some ">#a".toList, "<<b>>".toList, none⟩,
      ⟨some ">#b".toList, "<<a>>".toList, none⟩]
    let bs' : List Block := [⟨some ">#b".toList, "<<a>>".toList, none⟩,
      ⟨some ">n#a".toList, ['0'], none⟩, ⟨some ">#a".toList, "<<b>>".toList, none⟩,
      ⟨none, "<<a>>".toList, none⟩]
    ∃ s s', (empty .autoCreate ['m']).addAll bs = (s, none) ∧
      (empty .autoCreate ['m']).addAll bs' = (s', none) ∧
      s.render ['m'] =
        .error (.cycle ['m'] [.root, .named ['a'], .named ['b'], .named ['a']]) ∧
      s'.render ['m'] = s.render ['m'] := by
  intro bs bs'
  have hbs : Block.AllLabelled ['m'] bs := by decide +kernel
  have hbs' : Block.AllLabelled ['m'] bs' := by decide +kernel
  have htexts : ∀ n, Block.textsFor ['m'] ['m'] n bs = Block.textsFor ['m'] ['m'] n bs' := by
    have hblocks : Contribution.blocksFor ['m'] (Block.contributions ['m'] bs) =
        [(.root, "<<a>>".toList), (.named ['a'], "<<b>>".toList),
          (.named ['b'], "<<a>>".toList)] := by
      decide +kernel
    have hblocks' : Contribution.blocksFor ['m'] (Block.contributions ['m'] bs') =
        [(.named ['b'], "<<a>>".toList), (.named ['a'], "<<b>>".toList),
          (.root, "<<a>>".toList)] := by
      decide +kernel
    intro n
    rw [← Block.chunksFor_contributions, ← Block.chunksFor_contributions, Contribution.chunksFor,
      Contribution.chunksFor, hblocks, hblocks']
    -- at most one of the three blocks is for `n`
    by_cases hroot : SectionName.root = n
    · subst hroot
      decide
    · by_cases ha : SectionName.named ['a'] = n
      · subst ha
        decide
      · simp [List.filterMap_cons, hroot, ha]
  obtain ⟨s, s', hs, hs', hsame⟩ := render_addAll_eq_of_textsFor hbs hbs' htexts
  refine ⟨s, s', hs, hs', ?_, hsame.symm⟩
  have hrun : s = ((empty .autoCreate ['m']).addAll bs).1 := by rw [hs]
  rw [hrun]
  decide +kernel

end Store

end Literate
