import Literate.Proofs.Interleaving
import Literate.Proofs.LabelGrammar
import Literate.Proofs.Nesting
import Literate.Proofs.Passes
import Literate.Proofs.Sequences

/-!
# Blocks with malformed labels

A pass over documents stops at the first block that is refused, and up to there every block has been
stored. For a block with a malformed label the fault says where the block begins: in which document,
and on which line its fence is opened.
-/

namespace Literate

namespace Store
variable {s s' : Store} {b : Block} {bs : List Block} {policy : Policy} {default : Text}

/-- Blocks that are all added have readable labels, and the store is their grouping. -/
theorem eq_grouping_of_addAll (es : List Contribution)
    (h : (grouping policy default es).addAll bs = (s', none)) :
    Block.AllLabelled default bs ∧
      s' = grouping policy default (es ++ Block.contributions default bs) := by
  induction bs generalizing es with
  | nil =>
    cases h
    exact ⟨fun b hb => absurd hb List.not_mem_nil, by rw [Block.contributions]; simp⟩
  | cons b bs ih =>
    rcases (grouping policy default es).refused_or_added b with ⟨e, hb⟩ | ⟨s₁, hb⟩
    · rw [addAll_cons_of_refused hb] at h
      cases h
    · have happly : (grouping policy default es).apply (.add b) = (s₁, none) := hb
      obtain ⟨c, hc, rfl⟩ := apply_grouping happly
      rw [addAll_cons_of_added hb] at h
      obtain ⟨hlabelled, rfl⟩ := ih _ h
      refine ⟨List.forall_mem_cons.2 ⟨?_, hlabelled⟩, ?_⟩
      · cases hread : Label.read default (b.label.getD []) with
        | error e =>
          simp only [Call.contribution?, hread] at hc
          cases hc
        | ok a => exact ⟨a, rfl⟩
      · have hcons : Block.contributions default (b :: bs) = c :: Block.contributions default bs :=
          List.filterMap_cons_some hc
        rw [hcons, ← List.append_cons]

/-- A block is refused for its label exactly if the label cannot be read. -/
theorem add_eq_label_fault_iff {raw : Text} {location : Option Location} {problem : LabelProblem} :
    s.add b = (s, some (.label raw location problem)) ↔
      b.label.getD [] = raw ∧ b.location = location ∧
        Label.read s.defaultFile raw = .error (.label raw none problem) := by
  unfold add Block.scan
  cases hread : Label.read s.defaultFile (b.label.getD []) with
  | error e =>
    obtain ⟨p, rfl⟩ := Label.eq_of_read_eq_error hread
    constructor
    · intro h
      cases h
      exact ⟨rfl, rfl, hread⟩
    · intro h
      obtain ⟨rfl, rfl, hraw⟩ := h
      cases hread.symm.trans hraw
      rfl
  | ok a =>
    dsimp only
    constructor
    · intro h
      split at h
      · cases h
      · cases congrArg Prod.snd h
    · intro h
      obtain ⟨rfl, _, hraw⟩ := h
      cases hread.symm.trans hraw

end Store

namespace Document
variable {settings : Settings} {path : Option Path} {f : Fence} {b : Block}

theorem block?_eq_some_iff :
    block? settings path f = some b ↔
      f.closed = true ∧ settings.accepts (Label.languageTag f.info) = true ∧
        b = ⟨if f.info = [] then none else some f.info, f.content, some (locate path f)⟩ := by
  unfold block?
  split
  · rename_i hwanted
    rw [Bool.and_eq_true] at hwanted
    constructor
    · intro h
      cases h
      exact ⟨hwanted.1, hwanted.2, rfl⟩
    · intro h
      rw [h.2.2]
  · rename_i hwanted
    rw [Bool.and_eq_true] at hwanted
    constructor
    · intro h
      cases h
    · intro h
      exact absurd ⟨h.1, h.2.1⟩ hwanted

/-- The label of a block is the info of its fence. -/
theorem label_of_block? (h : block? settings path f = some b) : b.label.getD [] = f.info := by
  obtain ⟨_, _, rfl⟩ := block?_eq_some_iff.1 h
  dsimp only
  split
  · rename_i hnil
    rw [hnil]
    rfl
  · rfl

end Document

/-- A fence in one of several documents, with the documents and the fences in front of it and behind
it. -/
structure FenceSite where
  earlier : List Path
  document : Path
  later : List Path
  text : Text
  before : List Fence.Range
  range : Fence.Range
  after : List Fence.Range

namespace FenceSite
variable {pr : Project} {paths : List Path} {e : Fault}

/-- The fence is one of the documents, which can be read up to there. -/
structure IsOf (pr : Project) (paths : List Path) (site : FenceSite) : Prop where
  paths_eq : paths = site.earlier ++ site.document :: site.later
  readable : ∀ d ∈ site.earlier, ∃ t, pr.files.read d = .ok t
  read_eq : pr.files.read site.document = .ok site.text
  segmented : Fence.IsSegmentation (Text.lines site.text) 0
    (site.before ++ site.range :: site.after)

/-- The block of a fence of the document, unless it is left out. -/
def blockAt? (pr : Project) (site : FenceSite) (r : Fence.Range) : Option Block :=
  Document.block? pr.settings (some site.document) (r.fence (Text.lines site.text))

/-- The blocks in front of the fence: those of the earlier documents, and those of the earlier
fences of its own document. -/
def blocksBefore (pr : Project) (site : FenceSite) : List Block :=
  site.earlier.flatMap pr.blocksOf ++ site.before.filterMap (site.blockAt? pr)

theorem IsOf.blocksOf_eq {site : FenceSite} (h : site.IsOf pr paths) :
    pr.blocksOf site.document =
      (site.before ++ site.range :: site.after).filterMap (site.blockAt? pr) := by
  rw [Project.blocksOf_of_read h.read_eq, h.segmented.read_eq, List.filterMap_map]
  rfl

end FenceSite

namespace Project
variable {pr : Project} {paths : List Path} {e : Fault}

/-- A pass that fails for another reason than access to a file fails at the first block that is
refused. -/
theorem collect_eq_error_iff (he : ∀ c, e ≠ .access c) :
    pr.collect paths = .error e ↔ ∃ (site : FenceSite) (b : Block) (s : Store),
      site.IsOf pr paths ∧ site.blockAt? pr site.range = some b ∧
        pr.settings.emptyStore.addAll (site.blocksBefore pr) = (s, none) ∧
        s.add b = (s, some e) := by
  unfold collect
  rw [collectInto_eq_error_iff]
  constructor
  · intro h
    obtain ⟨earlier, d, later, s, hpaths, hearlier, hstops⟩ := h
    obtain ⟨hreadable, hadd⟩ := collectInto_eq_ok_iff.1 hearlier
    cases hstops with
    | unreadable _ => exact absurd rfl (he _)
    | @refused t s' _ hread hrefused =>
      obtain ⟨rs, hrs, _⟩ := Fence.exists_segmentation (Text.lines t) 0
      obtain ⟨before, b, after, hblocks, hbefore, hb⟩ := Store.addAll_eq_some_iff.1 hrefused
      rw [blocksOf_of_read hread, hrs.read_eq, List.filterMap_map] at hblocks
      obtain ⟨front, r, back, rfl, hfront, hr⟩ := exists_of_filterMap_eq hblocks
      refine ⟨⟨earlier, d, later, t, front, r, back⟩, b, s', ⟨hpaths, hreadable, hread, hrs⟩, hr,
        ?_, hb⟩
      rw [FenceSite.blocksBefore, Store.addAll_append hadd, ← hbefore, ← hfront]
      rfl
  · intro h
    obtain ⟨site, b, s', hsite, hblock, hbefore, hb⟩ := h
    obtain ⟨s, hearlier, hadd⟩ := Store.exists_of_addAll_append hbefore
    have hrefused : s.addAll (pr.blocksOf site.document) = (s', some e) := by
      rw [hsite.blocksOf_eq, List.filterMap_append, List.filterMap_cons_some hblock]
      exact Store.addAll_eq_some_iff.2 ⟨_, b, _, rfl, hadd, hb⟩
    exact ⟨site.earlier, site.document, site.later, s, hsite.paths_eq,
      collectInto_eq_ok_iff.2 ⟨hsite.readable, hearlier⟩, .refused hsite.read_eq hrefused⟩

/-- A pass fails for a malformed label exactly if a closed fence of one of its documents has that
label as its info, and all blocks in front of it have readable labels and are stored. The fault
tells the document and the number of the line that opens the fence. -/
theorem collect_eq_label_error_iff (pr : Project) (paths : List Path) (raw : Text)
    (location : Option Location) (problem : LabelProblem) :
    pr.collect paths = .error (.label raw location problem) ↔
      ∃ site : FenceSite, site.IsOf pr paths ∧
        location = some ⟨some site.document, site.range.first + 1⟩ ∧
        (∃ line, (Text.lines site.text)[site.range.first]? = some line ∧
          site.range.opening.Opens line) ∧
        site.range.close.isSome = true ∧ site.range.opening.info = raw ∧
        pr.settings.accepts (Label.languageTag raw) = true ∧
        Label.read pr.settings.defaultFile raw = .error (.label raw none problem) ∧
        Block.AllLabelled pr.settings.defaultFile (site.blocksBefore pr) ∧
        pr.settings.emptyStore.addAll (site.blocksBefore pr) =
          (.grouping pr.settings.policy pr.settings.defaultFile
            (Block.contributions pr.settings.defaultFile (site.blocksBefore pr)), none) := by
  rw [collect_eq_error_iff (by simp)]
  constructor
  · intro h
    obtain ⟨site, b, s, hsite, hblock, hbefore, hb⟩ := h
    obtain ⟨hlabelled, rfl⟩ := Store.eq_grouping_of_addAll [] hbefore
    obtain ⟨hraw, hlocation, hread⟩ := Store.add_eq_label_fault_iff.1 hb
    have hinfo : site.range.opening.info = raw := (Document.label_of_block? hblock).symm.trans hraw
    obtain ⟨hclosed, haccepts, rfl⟩ := Document.block?_eq_some_iff.1 hblock
    have hfence := hsite.segmented.fences site.range (by simp)
    refine ⟨site, hsite, hlocation.symm, hfence.opens, hclosed, hinfo, ?_, hread, hlabelled, hbefore⟩
    rw [← hinfo]
    exact haccepts
  · intro h
    obtain ⟨site, hsite, hlocation, _, hclosed, rfl, haccepts, hread, _, hbefore⟩ := h
    have hblock : site.blockAt? pr site.range = some _ :=
      Document.block?_eq_some_iff.2 ⟨hclosed, haccepts, rfl⟩
    refine ⟨site, _, _, hsite, hblock, hbefore, Store.add_eq_label_fault_iff.2 ⟨?_, ?_, hread⟩⟩
    · exact Document.label_of_block? hblock
    · exact hlocation.symm

/-- The fault names the second document and its third line. -/
example :
    let a : Path := ⟨"a.md".toList⟩
    let b : Path := ⟨"b.md".toList⟩
    let m := (MemoryFiles.empty.insert a "```js\nx\n```".toList).insert b
      "text\n\n```js > a > b\ny\n```".toList
    Project.collect ⟨.default, ⟨['/']⟩, m.files⟩ [a, b] =
      .error (.label "js > a > b".toList (some ⟨some b, 3⟩) (.unexpected "> b".toList)) := by
  decide +kernel

end Project

end Literate
