import Literate.Proofs.Interleaving

/-!
# Sections that the root does not reach

What a file renders to, be it a text or a failure, comes from the sections that its root reaches by
markers. A block for any other section changes neither these sections nor which sections they are,
so blocks for unreached sections may be added in any number, whatever they refer to.
-/

namespace Literate

open Relation

namespace CodeFile
variable {f : CodeFile} {n m : SectionName} {chunk : Text} {children : List SectionName}

/-- Markers lead from the root to the name, which need not be the name of a section. -/
def Reaches (f : CodeFile) (n : SectionName) : Prop :=
  ReflTransGen f.Refers .root n

theorem section?_push (f : CodeFile) (n m : SectionName) (chunk : Text)
    (children : List SectionName) :
    (f.push n chunk children).section? m =
      if m = n then some (((f.section? n).getD (.empty f.name n)).push chunk children)
      else f.section? m := by
  unfold section? push
  dsimp only
  rw [updateSections_eq_upsert]
  apply find?_upsert
  · rfl
  · intro s
    rfl

theorem section?_push_of_ne (h : m ≠ n) : (f.push n chunk children).section? m = f.section? m := by
  rw [section?_push, if_neg h]

/-- The sections on the way from the root keep their markers. -/
theorem reaches_push (h : ¬ f.Reaches n) : (f.push n chunk children).Reaches m ↔ f.Reaches m := by
  have hrefers : ∀ {a b}, f.Reaches a → ((f.push n chunk children).Refers a b ↔ f.Refers a b) := by
    intro a b ha
    have hne : a ≠ n := fun heq => h (heq ▸ ha)
    unfold Refers
    rw [section?_push_of_ne hne]
  constructor
  · intro hm
    induction hm with
    | refl => exact .refl
    | tail _ hstep ih => exact .tail ih ((hrefers ih).1 hstep)
  · intro hm
    induction hm with
    | refl => exact .refl
    | tail hreached hstep ih => exact .tail ih ((hrefers hreached).2 hstep)

theorem render_push (h : ¬ f.Reaches n) : (f.push n chunk children).render = f.render := by
  have hname : f.name = (f.push n chunk children).name := rfl
  symm
  apply render_congr hname
  intro m hm
  have hne : m ≠ n := fun heq => h (heq ▸ hm)
  unfold chunks?
  rw [section?_push_of_ne hne]

end CodeFile

namespace Store
variable {s s' : Store} {b c : Block} {bs : List Block} {name : Text}

/-- The block goes to another file, or to a section that the root of the file does not reach. -/
def Misses (s : Store) (name : Text) (b : Block) : Prop :=
  ∀ a, Label.read s.defaultFile (b.label.getD []) = .ok a → a.file = name →
    ∃ f, s.file? name = some f ∧ ¬ f.Reaches a.sectionName

theorem exists_of_added (h : s.add b = (s', none)) :
    ∃ a, Label.read s.defaultFile (b.label.getD []) = .ok a ∧ s'.defaultFile = s.defaultFile ∧
      ∀ name, s'.file? name =
        if name = a.file then
          some (((s.file? a.file).getD (.empty a.file)).push a.sectionName b.text
            (Marker.references b.text))
        else s.file? name := by
  unfold add Block.scan at h
  cases hread : Label.read s.defaultFile (b.label.getD []) with
  | error e =>
    rw [hread] at h
    cases h
  | ok a =>
    rw [hread] at h
    dsimp only at h
    split at h
    · cases h
    · cases h
      refine ⟨a, rfl, rfl, fun name => ?_⟩
      unfold file?
      dsimp only
      rw [updateFiles_eq_upsert]
      apply find?_upsert
      · rfl
      · intro f
        rfl

/-- The step lemma: such a block changes nothing about the file, and those that are still to come
stay such blocks. -/
theorem add_of_misses (h : s.add b = (s', none)) (hb : s.Misses name b) :
    s'.render name = s.render name ∧ ∀ c, s.Misses name c → s'.Misses name c := by
  obtain ⟨a, hread, hdefault, hfile⟩ := exists_of_added h
  by_cases hname : name = a.file
  · -- the file takes the block, in a section out of reach
    obtain ⟨f, hf, hunreached⟩ := hb a hread hname.symm
    have hf' := hfile name
    rw [if_pos hname, ← hname, hf, Option.getD_some] at hf'
    refine ⟨?_, fun c hc a' hread' hname' => ?_⟩
    · simp only [render, hf', hf, CodeFile.render_push hunreached]
    · rw [hdefault] at hread'
      obtain ⟨g, hg, hg'⟩ := hc a' hread' hname'
      cases hf.symm.trans hg
      exact ⟨_, hf', fun hreached => hg' ((CodeFile.reaches_push hunreached).1 hreached)⟩
  · have hsame := hfile name
    rw [if_neg hname] at hsame
    refine ⟨by rw [render, render, hsame], fun c hc => ?_⟩
    unfold Misses
    rw [hdefault, hsame]
    exact hc

/-- The run lemma, for blocks up to the first that is refused. -/
theorem render_addAll_of_misses (h : ∀ b ∈ bs, s.Misses name b) :
    (s.addAll bs).1.render name = s.render name := by
  induction bs generalizing s with
  | nil => rfl
  | cons b bs ih =>
    obtain ⟨hb, hbs⟩ := List.forall_mem_cons.1 h
    unfold addAll
    rcases s.refused_or_added b with ⟨e, hadd⟩ | ⟨s', hadd⟩
    · rw [hadd]
    · rw [hadd]
      obtain ⟨hrender, hstay⟩ := add_of_misses hadd hb
      exact (ih fun c hc => hstay c (hbs c hc)).trans hrender

/-- Two files of one name that agree on all sections within reach of the root of the first render
alike, to the same text or the same failure. So blocks for other files and for sections that the
root does not reach change nothing about a file. -/
theorem render_eq_of_unreached :
    (∀ f g : CodeFile, f.name = g.name → (∀ n, f.Reaches n → f.chunks? n = g.chunks? n) →
      f.render = g.render) ∧
    ∀ (s : Store) (name : Text) (bs : List Block), (∀ b ∈ bs, s.Misses name b) →
      (s.addAll bs).1.render name = s.render name :=
  ⟨fun _ _ => CodeFile.render_congr, fun _ _ _ => render_addAll_of_misses⟩

/-- The section `#b` of `g`, and the blocks for it, lead into a cycle and to no section at all. -/
theorem render_eq_of_unreached_cycle :
    let root : Section := ⟨.root, ['m'], ["<<a>>".toList], [.named ['a']]⟩
    let a : Section := ⟨.named ['a'], ['m'], [['1']], []⟩
    let f : CodeFile := ⟨['m'], [root, a]⟩
    let g : CodeFile := ⟨['m'], [⟨.named ['b'], ['m'], ["<<b>>".toList], [.named ['b']]⟩, a, root]⟩
    let s : Store := ⟨.strict, ['m'], [f]⟩
    let bs : List Block := [⟨some ">#b".toList, "<<b>>".toList, none⟩,
      ⟨some ">m#b".toList, "<<c>>".toList, none⟩]
    f.render = .ok ['1'] ∧ g.render = f.render ∧
      (s.addAll bs).1.files ≠ s.files ∧ (s.addAll bs).1.render ['m'] = s.render ['m'] := by
  intro root a f g s bs
  have hreached : ∀ n, f.Reaches n → n = .root ∨ n = .named ['a'] := by
    intro n hn
    induction hn with
    | refl => exact .inl rfl
    | tail _ hstep ih =>
      obtain ⟨sec, hsec, hmarker⟩ := hstep
      rcases ih with rfl | rfl
      · cases hsec
        have hmarkers : root.markers = [.named ['a']] := by decide +kernel
        rw [hmarkers] at hmarker
        exact .inr (List.mem_singleton.1 hmarker)
      · cases hsec
        have hmarkers : a.markers = [] := by decide +kernel
        rw [hmarkers] at hmarker
        cases hmarker
  have hagree : ∀ n, f.Reaches n → f.chunks? n = g.chunks? n := by
    intro n hn
    rcases hreached n hn with rfl | rfl
    · rfl
    · rfl
  have hmisses : ∀ b ∈ bs, s.Misses ['m'] b := by
    have hread : ∀ b ∈ bs, (Label.read ['m'] (b.label.getD [])).toOption.map Label.sectionName =
        some (.named ['b']) := by
      decide +kernel
    intro b hb l hl _
    have hname := hread b hb
    rw [show Label.read ['m'] (b.label.getD []) = .ok l from hl] at hname
    refine ⟨f, rfl, fun hl' => ?_⟩
    rw [Option.some.inj hname] at hl'
    rcases hreached _ hl' with heq | heq
    · cases heq
    · exact absurd heq (by decide)
  obtain ⟨hfiles, hblocks⟩ := render_eq_of_unreached
  exact ⟨by decide +kernel, (hfiles f g rfl hagree).symm, by decide +kernel,
    hblocks s ['m'] bs hmisses⟩

end Store

end Literate
