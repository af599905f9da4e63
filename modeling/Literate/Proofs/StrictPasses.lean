import Literate.Proofs.MalformedLabels
import Literate.Proofs.Obstacles

/-!
# Passes that may create no file

Documents register no files, so where no file may be created every block is refused. A pass over
documents then succeeds only if it meets no block at all, and its store is empty. Otherwise it stops
at the first document that cannot be read or at the first block, whichever comes first. No command
writes anything under this policy.
-/

namespace Literate

/-- The fence is closed and its language is wanted, so that it makes a block. -/
def Settings.Takes (settings : Settings) (r : Fence.Range) : Prop :=
  r.close.isSome = true ∧ settings.accepts (Label.languageTag r.opening.info) = true

/-- Why the block of a fence in a document is refused where no file may be created: its label is
malformed, or else the file that it names is not registered. -/
inductive Settings.Rejects (settings : Settings) (d : Path) (r : Fence.Range) : Fault → Prop where
  | label {problem : LabelProblem}
      (h : Label.read settings.defaultFile r.opening.info =
        .error (.label r.opening.info none problem)) :
      Rejects settings d r (.label r.opening.info (some ⟨some d, r.first + 1⟩) problem)
  | unregistered {a : Label} (h : Label.read settings.defaultFile r.opening.info = .ok a) :
      Rejects settings d r (.unregisteredFile a.file)

theorem Settings.Rejects.unique {settings : Settings} {d : Path} {r : Fence.Range} {e e' : Fault}
    (h : settings.Rejects d r e) (h' : settings.Rejects d r e') : e = e' := by
  cases h with
  | label hread =>
    cases h' with
    | label hread' =>
      cases hread.symm.trans hread'
      rfl
    | unregistered hread' => cases hread.symm.trans hread'
  | unregistered hread =>
    cases h' with
    | label hread' => cases hread.symm.trans hread'
    | unregistered hread' =>
      cases hread.symm.trans hread'
      rfl

namespace Project

/-- The document can be read, and none of its fences makes a block. -/
def IsPlain (pr : Project) (d : Path) : Prop :=
  ∃ t rs, pr.files.read d = .ok t ∧ Fence.IsSegmentation (Text.lines t) 0 rs ∧
    ∀ r ∈ rs, ¬ pr.settings.Takes r

/-- Where a pass stops: at a document that cannot be read, or at the first block of one. -/
inductive FirstBlock (pr : Project) (d : Path) : Fault → Prop where
  | unreadable {c : AccessError} (h : pr.files.read d = .error c) : FirstBlock pr d (.access c)
  | refused {t : Text} {before after : List Fence.Range} {r : Fence.Range} {e : Fault}
      (h : pr.files.read d = .ok t)
      (segmented : Fence.IsSegmentation (Text.lines t) 0 (before ++ r :: after))
      (skipped : ∀ q ∈ before, ¬ pr.settings.Takes q) (taken : pr.settings.Takes r)
      (rejected : pr.settings.Rejects d r e) : FirstBlock pr d e

end Project

theorem Document.block?_range_eq_none_iff {settings : Settings} {path : Option Path}
    {ls : List Text} {r : Fence.Range} :
    block? settings path (r.fence ls) = none ↔ ¬ settings.Takes r := by
  constructor
  · intro h htakes
    have hsome : block? settings path (r.fence ls) = some _ :=
      block?_eq_some_iff.2 ⟨htakes.1, htakes.2, rfl⟩
    cases h.symm.trans hsome
  · intro h
    cases hblock : block? settings path (r.fence ls) with
    | none => rfl
    | some b =>
      obtain ⟨hclosed, haccepts, _⟩ := block?_eq_some_iff.1 hblock
      exact absurd ⟨hclosed, haccepts⟩ h

section Strict
variable {settings : Settings} (hstrict : settings.policy = .strict)
include hstrict

/-- The step lemma: nothing is registered, so every block is refused. -/
theorem Store.exists_add_emptyStore (b : Block) :
    ∃ e, settings.emptyStore.add b = (settings.emptyStore, some e) := by
  rcases add_cases (isUnder_emptyStore settings) b with ⟨e, hadd, _⟩ | ⟨_, _, _, hfine⟩
  · exact ⟨e, hadd⟩
  · cases hscan : b.scan settings.defaultFile with
    | error e => exact absurd (.label hscan) (hfine e)
    | ok scan => exact absurd (.unregistered hstrict hscan) (hfine _)

theorem Store.addAll_emptyStore_eq_none_iff {bs : List Block} {s : Store} :
    settings.emptyStore.addAll bs = (s, none) ↔ bs = [] ∧ s = settings.emptyStore := by
  constructor
  · intro h
    cases bs with
    | nil =>
      cases h
      exact ⟨rfl, rfl⟩
    | cons b bs =>
      obtain ⟨e, hadd⟩ := exists_add_emptyStore hstrict b
      rw [addAll_cons_of_refused hadd] at h
      cases h
  · intro h
    rw [h.1, h.2]
    rfl

/-- The block of a fence is refused for its label or for the file that it names. -/
theorem Store.add_emptyStore_eq_fault_iff {d : Path} {ls : List Text} {r : Fence.Range} {b : Block}
    {e : Fault} (hblock : Document.block? settings (some d) (r.fence ls) = some b) :
    settings.emptyStore.add b = (settings.emptyStore, some e) ↔ settings.Rejects d r e := by
  have hinfo : b.label.getD [] = r.opening.info := Document.label_of_block? hblock
  have hlocation : b.location = some ⟨some d, r.first + 1⟩ := by
    obtain ⟨_, _, rfl⟩ := Document.block?_eq_some_iff.1 hblock
    rfl
  obtain ⟨e', hadd, hrejects⟩ : ∃ e', settings.emptyStore.add b = (settings.emptyStore, some e') ∧
      settings.Rejects d r e' := by
    cases hread : Label.read settings.defaultFile r.opening.info with
    | error e' =>
      obtain ⟨problem, rfl⟩ := Label.eq_of_read_eq_error hread
      exact ⟨_, add_eq_label_fault_iff.2 ⟨hinfo, hlocation, hread⟩, .label hread⟩
    | ok a =>
      refine ⟨.unregisteredFile a.file, ?_, .unregistered hread⟩
      have hscan : b.scan settings.defaultFile = .ok ⟨a, Marker.references b.text⟩ := by
        simp only [Block.scan, hinfo, hread]
      simp [add, Settings.emptyStore, empty, hscan, hstrict, file?]
  rw [hadd]
  constructor
  · intro h
    cases h
    exact hrejects
  · intro h
    rw [h.unique hrejects]

end Strict

namespace Project
variable {pr : Project} {paths : List Path} {d : Path} {s : Store} {e : Fault}

/-- A document without blocks, by its blocks. -/
theorem isPlain_iff :
    pr.IsPlain d ↔ (∃ t, pr.files.read d = .ok t) ∧ pr.blocksOf d = [] := by
  constructor
  · intro h
    obtain ⟨t, rs, hread, hrs, hskipped⟩ := h
    refine ⟨⟨t, hread⟩, ?_⟩
    rw [blocksOf_of_read hread, hrs.read_eq, List.filterMap_map]
    exact List.filterMap_eq_nil_iff.2 fun r hr => Document.block?_range_eq_none_iff.2 (hskipped r hr)
  · intro h
    obtain ⟨⟨t, hread⟩, hblocks⟩ := h
    obtain ⟨rs, hrs, _⟩ := Fence.exists_segmentation (Text.lines t) 0
    rw [blocksOf_of_read hread, hrs.read_eq, List.filterMap_map] at hblocks
    exact ⟨t, rs, hread, hrs, fun r hr =>
      Document.block?_range_eq_none_iff.1 (List.filterMap_eq_nil_iff.1 hblocks r hr)⟩

section Strict
variable (hstrict : pr.settings.policy = .strict)
include hstrict

theorem collect_eq_ok_iff_isPlain :
    pr.collect paths = .ok s ↔ (∀ d ∈ paths, pr.IsPlain d) ∧ s = pr.settings.emptyStore := by
  unfold collect
  rw [collectInto_eq_ok_iff, Store.addAll_emptyStore_eq_none_iff hstrict, List.flatMap_eq_nil_iff,
    ← and_assoc, ← forall₂_and]
  simp only [isPlain_iff]

/-- With nothing stored a pass stops at the first block of a document. -/
theorem stopsAt_emptyStore_iff : pr.StopsAt pr.settings.emptyStore d e ↔ pr.FirstBlock d e := by
  constructor
  · intro h
    cases h with
    | unreadable hread => exact .unreadable hread
    | @refused t _ _ hread hadd =>
      obtain ⟨before, b, after, hblocks, hbefore, hb⟩ := Store.addAll_eq_some_iff.1 hadd
      -- nothing can have been added in front of the refused block, so it is the first one
      obtain ⟨rfl, rfl⟩ := (Store.addAll_emptyStore_eq_none_iff hstrict).1 hbefore
      obtain ⟨rs, hrs, _⟩ := Fence.exists_segmentation (Text.lines t) 0
      rw [blocksOf_of_read hread, hrs.read_eq, List.filterMap_map] at hblocks
      obtain ⟨front, r, back, rfl, hfront, hr⟩ := exists_of_filterMap_eq hblocks
      obtain ⟨hclosed, haccepts, _⟩ := Document.block?_eq_some_iff.1 hr
      refine .refused hread hrs (fun q hq => ?_) ⟨hclosed, haccepts⟩
        ((Store.add_emptyStore_eq_fault_iff hstrict hr).1 hb)
      exact Document.block?_range_eq_none_iff.1 (List.filterMap_eq_nil_iff.1 hfront q hq)
  · intro h
    cases h with
    | unreadable hread => exact .unreadable hread
    | @refused t before after r _ hread segmented skipped taken rejected =>
      have hr : Document.block? pr.settings (some d) (r.fence (Text.lines t)) = some _ :=
        Document.block?_eq_some_iff.2 ⟨taken.1, taken.2, rfl⟩
      have hbefore : before.filterMap (Document.block? pr.settings (some d) ∘
          Fence.Range.fence (Text.lines t)) = [] :=
        List.filterMap_eq_nil_iff.2 fun q hq =>
          Document.block?_range_eq_none_iff.2 (skipped q hq)
      have hcons : (r :: after).filterMap (Document.block? pr.settings (some d) ∘
          Fence.Range.fence (Text.lines t)) = _ :: _ := List.filterMap_cons_some hr
      have hb := (Store.add_emptyStore_eq_fault_iff hstrict hr).2 rejected
      have hadd : pr.settings.emptyStore.addAll (pr.blocksOf d) =
          (pr.settings.emptyStore, some e) := by
        rw [blocksOf_of_read hread, segmented.read_eq, List.filterMap_map, List.filterMap_append,
          hbefore, List.nil_append, hcons, Store.addAll_cons_of_refused hb]
      exact .refused hread hadd

theorem collect_eq_error_iff_firstBlock :
    pr.collect paths = .error e ↔ ∃ earlier d later, paths = earlier ++ d :: later ∧
      (∀ d' ∈ earlier, pr.IsPlain d') ∧ pr.FirstBlock d e := by
  unfold collect
  rw [collectInto_eq_error_iff]
  constructor
  · intro h
    obtain ⟨earlier, d, later, s, hpaths, hearlier, hstops⟩ := h
    obtain ⟨hplain, rfl⟩ := (collect_eq_ok_iff_isPlain hstrict).1 hearlier
    exact ⟨earlier, d, later, hpaths, hplain, (stopsAt_emptyStore_iff hstrict).1 hstops⟩
  · intro h
    obtain ⟨earlier, d, later, hpaths, hplain, hfirst⟩ := h
    exact ⟨earlier, d, later, _, hpaths, (collect_eq_ok_iff_isPlain hstrict).2 ⟨hplain, rfl⟩,
      (stopsAt_emptyStore_iff hstrict).2 hfirst⟩

theorem tangle_eq_nil {ws : Transaction} (h : pr.tangle paths = .ok ws) : ws = [] := by
  obtain ⟨s, hcollect, hqueue⟩ := tangle_eq_ok_iff.1 h
  obtain ⟨_, rfl⟩ := (collect_eq_ok_iff_isPlain hstrict).1 hcollect
  cases hqueue
  rfl

end Strict

end Project

namespace Command
variable {t : FileTree} {p : Session} {i : Invocation} {pr : Project}

theorem policy_of_openProject {policy : Policy} (hi : i.policy = some policy)
    (h : openProject t p i = .ok pr) : pr.settings.policy = policy := by
  unfold openProject at h
  obtain ⟨s, _, rfl⟩ := map_eq_ok_iff.1 h
  simp [hi]

theorem tree_tangle_strict (hstrict : pr.settings.policy = .strict) (dryRun quiet : Bool)
    (globs : List Text) (files : List Path) :
    (tangle t p pr dryRun quiet globs files).tree = t := by
  cases hselect : pr.select files globs with
  | error e => rw [tangle_of_select_error hselect]
  | ok paths =>
    cases htangle : pr.tangle paths with
    | error e => rw [tangle_of_tangle_error hselect htangle]
    | ok ws =>
      rw [(tangle_of_tangle_ok hselect htangle).1, Project.tangle_eq_nil hstrict htangle]
      rfl

theorem tree_watch_strict (hstrict : pr.settings.policy = .strict) (debounce : Option Nat) :
    (watch t p pr debounce).tree = t := by
  unfold watch
  split
  · rfl
  · exact tree_tangle_strict hstrict false true [] []

/-- No command changes the tree. -/
theorem tree_run_strict (hi : i.policy = some .strict) : (run t p i).tree = t := by
  cases hopen : openProject t p i with
  | error e => exact (run_of_openProject_error hopen).1
  | ok pr =>
    have hstrict := policy_of_openProject hi hopen
    rw [(run_of_openProject_ok hopen).1]
    cases i.action with
    | tangle dryRun quiet globs files => exact tree_tangle_strict hstrict dryRun quiet globs files
    | display target => exact tree_display t pr target
    | list json => exact tree_list t pr json
    | watch debounce => exact tree_watch_strict hstrict debounce

/-- Where no file may be created, a pass succeeds exactly if all documents can be read and none has
a closed fence of a wanted language; its store is then empty. Otherwise it fails at the first
document that cannot be read or at the first such fence, whichever comes first, for access, for the
label, or for the file that the label names. Nothing is ever queued, and no command that is told so
changes the tree. -/
theorem strict_generates_nothing :
    (∀ (pr : Project) (paths : List Path), pr.settings.policy = .strict →
      (∀ s, pr.collect paths = .ok s ↔
        (∀ d ∈ paths, pr.IsPlain d) ∧ s = pr.settings.emptyStore) ∧
      pr.settings.emptyStore.files = [] ∧
      (∀ e, pr.collect paths = .error e ↔ ∃ earlier d later, paths = earlier ++ d :: later ∧
        (∀ d' ∈ earlier, pr.IsPlain d') ∧ pr.FirstBlock d e) ∧
      ∀ ws, pr.tangle paths = .ok ws → ws = []) ∧
    ∀ (t : FileTree) (p : Session) (i : Invocation), i.policy = some .strict →
      (∀ pr, openProject t p i = .ok pr → pr.settings.policy = .strict) ∧ (run t p i).tree = t := by
  constructor
  · intro pr paths hstrict
    exact ⟨fun _ => Project.collect_eq_ok_iff_isPlain hstrict, rfl,
      fun _ => Project.collect_eq_error_iff_firstBlock hstrict,
      fun _ => Project.tangle_eq_nil hstrict⟩
  · intro t p i hi
    exact ⟨fun _ => policy_of_openProject hi, tree_run_strict hi⟩

/-- The fence of another language in the first document is passed over; the pass stops at the block
of the second one. -/
theorem strict_generates_nothing_second :
    let a : Path := ⟨"a.md".toList⟩
    let b : Path := ⟨"b.md".toList⟩
    let m := (MemoryFiles.empty.insert a "```py\nx\n```\n".toList).insert b
      "text\n```js > c.js\ny\n```".toList
    let pr : Project := ⟨{ Settings.default with policy := .strict, languages := ["js".toList] },
      ⟨['/']⟩, m.files⟩
    let e : Fault := .unregisteredFile "c.js".toList
    let t : FileTree := ⟨[(["w".toList], .directory),
      (["w".toList, "d.md".toList], .file (.text "```js\nx\n```\n".toList))]⟩
    let i : Invocation := ⟨none, none, false, some .strict, .tangle false false [] []⟩
    pr.settings.policy = .strict ∧ pr.IsPlain a ∧ pr.FirstBlock b e ∧
      pr.collect [a, b] = .error e ∧ (run t ⟨["w".toList], 0⟩ i).tree = t := by
  intro a b m pr e t i
  obtain ⟨hpass, hrun⟩ := strict_generates_nothing
  have ha : pr.collect [a] = .ok pr.settings.emptyStore := by decide +kernel
  have hb : pr.collect [b] = .error e := by decide +kernel
  have hplain := (((hpass pr [a] rfl).1 _).1 ha).1 a List.mem_cons_self
  obtain ⟨earlier, d, later, hpaths, _, hfirst⟩ := ((hpass pr [b] rfl).2.2.1 e).1 hb
  obtain ⟨rfl, rfl, _⟩ : earlier = [] ∧ d = b ∧ later = [] := by
    rcases List.append_eq_singleton_iff.1 hpaths.symm with ⟨hnil, hone⟩ | ⟨_, hnil⟩
    · exact ⟨hnil, List.cons.inj hone⟩
    · cases hnil
  have hboth := ((hpass pr [a, b] rfl).2.2.1 e).2
    ⟨[a], b, [], rfl, List.forall_mem_singleton.2 hplain, hfirst⟩
  exact ⟨rfl, hplain, hfirst, hboth, (hrun t _ i rfl).2⟩

end Command

end Literate
