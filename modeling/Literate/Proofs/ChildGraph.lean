import Literate.Proofs.Failure
import Literate.Proofs.Grouping

/-!
# The recorded children decide rendering

Rendering reads the chunks of sections and never their lists of children, which are recorded while
blocks are added. Still the two agree: a file of a store renders exactly when the graph of the
recorded children, as far as it can be reached from `root`, has no unknown section and no cycle.
-/

namespace Literate

open Relation

namespace CodeFile
variable {f : CodeFile}

/-- Section `b` is recorded as a child of section `a`. -/
def ListsChild (f : CodeFile) (a b : SectionName) : Prop :=
  ∃ s, f.section? a = some s ∧ b ∈ s.children

/-- Every section that one within reach of `root` relates to is known. -/
def ClosedFromRoot (f : CodeFile) (R : SectionName → SectionName → Prop) : Prop :=
  ∀ a b, ReflTransGen R .root a → R a b → ∃ s, f.section? b = some s

/-- No section within reach of `root` reaches itself. -/
def AcyclicFromRoot (R : SectionName → SectionName → Prop) : Prop :=
  ∀ a, ReflTransGen R SectionName.root a → ¬ TransGen R a a

theorem exists_section_of_expand {n : SectionName} {t : Text} (h : f.Expand n t) :
    ∃ s, f.section? n = some s := by
  cases h with
  | intro found _ => exact ⟨_, found⟩

/-- A file with a root renders exactly when its markers lead neither out of the file nor round. -/
theorem exists_render_eq_ok_iff (hroot : ∃ s, f.section? .root = some s) :
    (∃ t, f.render = .ok t) ↔ f.ClosedFromRoot f.Refers ∧ AcyclicFromRoot f.Refers := by
  constructor
  · intro hrender
    obtain ⟨t, ht⟩ := hrender
    have hexp := (renderSection_eq_ok_iff.1 (render_eq_ok_iff.1 ht)).2.1
    refine ⟨fun a b ha hab => ?_, hexp.acyclic⟩
    obtain ⟨v, hv⟩ := hexp.exists_of_reaches (ha.tail hab)
    exact exists_section_of_expand hv
  · intro hgraph
    obtain ⟨hclosed, hacyclic⟩ := hgraph
    cases hrender : f.render with
    | ok t => exact ⟨t, rfl⟩
    | error e =>
      obtain ⟨after, hrun⟩ := render_eq_error_iff.1 hrender
      obtain ⟨path, last, hpath, hend⟩ := leadsTo_of_renderSection hrun
      have hreach : ReflTransGen f.Refers .root last := by
        rcases hpath.eq_or_transGen with ⟨_, rfl⟩ | htrans
        · exact .refl
        · exact htrans.to_reflTransGen
      rcases hend with ⟨hmem, _⟩ | ⟨_, hnone, _⟩
      · have hcycle := hpath.transGen_of_mem (hmem.resolve_right List.not_mem_nil)
        exact absurd hcycle (hacyclic last hreach)
      · have hknown : ∃ s, f.section? last = some s := by
          rcases hpath.eq_or_transGen with ⟨_, rfl⟩ | htrans
          · exact hroot
          · obtain ⟨k, hk, hlast⟩ := TransGen.tail'_iff.1 htrans
            exact hclosed k last hk hlast
        obtain ⟨s, hs⟩ := hknown
        cases hnone.symm.trans hs

end CodeFile

namespace Store
variable {policy : Policy} {file : Text} {es : List Contribution} {f : CodeFile}

theorem file?_of_mem {s : Store} (hnodup : s.names.Nodup) (hf : f ∈ s.files) :
    s.file? f.name = some f := by
  cases hfound : s.file? f.name with
  | none => exact absurd (List.mem_map_of_mem hf) (file?_eq_none_iff.1 hfound)
  | some f' =>
    have hname : f'.name = f.name := by simpa using List.find?_some hfound
    have hmem := List.mem_of_find?_eq_some hfound
    rw [List.inj_on_of_nodup_map hnodup hmem hf hname]

theorem children_grouping (hf : f ∈ (grouping policy file es).files) {sec : Section}
    (hsec : sec ∈ f.sections) : sec.children = sec.markers.eraseDups := by
  obtain ⟨name, _, rfl⟩ := List.mem_map.1 hf
  obtain ⟨n, _, rfl⟩ := List.mem_map.1 hsec
  rfl

theorem listsChild_eq_refers (hf : f ∈ (grouping policy file es).files) :
    f.ListsChild = f.Refers := by
  funext a b
  apply propext
  have hsame : ∀ sec, f.section? a = some sec → (b ∈ sec.children ↔ b ∈ sec.markers) := by
    intro sec hsec
    rw [children_grouping hf (CodeFile.name_of_section? hsec).1, List.mem_eraseDups]
  constructor
  · intro hchild
    obtain ⟨sec, hsec, hb⟩ := hchild
    exact ⟨sec, hsec, (hsame sec hsec).1 hb⟩
  · intro hrefers
    obtain ⟨sec, hsec, hb⟩ := hrefers
    exact ⟨sec, hsec, (hsame sec hsec).2 hb⟩

theorem exists_root_grouping (hf : f ∈ (grouping policy file es).files) :
    ∃ sec, f.section? .root = some sec := by
  obtain ⟨others, hnames, _⟩ := sections_grouping hf
  cases hsections : f.sections with
  | nil => simp [hsections] at hnames
  | cons sec secs =>
    rw [hsections, List.map_cons] at hnames
    exact ⟨sec, by simp [CodeFile.section?, hsections, (List.cons.inj hnames).1]⟩

/-- A file of a store that any calls have built renders exactly when its recorded children, from
`root` on, are all known and never lead back. -/
theorem exists_render_iff_children (policy : Policy) (file : Text) (calls : List Call)
    (f : CodeFile) (hf : f ∈ ((empty policy file).run calls).files) :
    (∃ t, ((empty policy file).run calls).render f.name = .ok t) ↔
      f.ClosedFromRoot f.ListsChild ∧ CodeFile.AcyclicFromRoot f.ListsChild := by
  rw [run_empty] at hf ⊢
  rw [listsChild_eq_refers hf, ← CodeFile.exists_render_eq_ok_iff (exists_root_grouping hf)]
  rw [render, file?_of_mem nodup_names_grouping hf]

/-- A section that is used twice on different ways makes no cycle. -/
theorem exists_render_iff_children_shared :
    let calls : List Call := [.add ⟨some ">#x".toList, "<<y>>".toList, none⟩,
      .add ⟨none, "<<x>><<#y>>".toList, none⟩, .add ⟨some ">#y".toList, ['1'], none⟩]
    let f : CodeFile := ⟨['m'], [⟨.root, ['m'], ["<<x>><<#y>>".toList], [.named ['x'], .named ['y']]⟩,
      ⟨.named ['x'], ['m'], ["<<y>>".toList], [.named ['y']]⟩,
      ⟨.named ['y'], ['m'], [['1']], []⟩]⟩
    let s := (empty .autoCreate ['m']).run calls
    f ∈ s.files ∧ s.render f.name = .ok ['1', '1'] ∧
      f.ClosedFromRoot f.ListsChild ∧ CodeFile.AcyclicFromRoot f.ListsChild := by
  intro calls f s
  have hf : f ∈ s.files := by decide +kernel
  have hrender : s.render f.name = .ok ['1', '1'] := by decide +kernel
  exact ⟨hf, hrender, (exists_render_iff_children .autoCreate ['m'] calls f hf).1 ⟨_, hrender⟩⟩

end Store

end Literate
