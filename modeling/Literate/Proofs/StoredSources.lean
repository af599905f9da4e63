import Literate.Proofs.PathOrder
import Literate.Proofs.Sequences

/-!
# Source files of a project in memory

A table of files in memory has its paths in strictly increasing order, whatever has been added to it
and removed from it. The source files of a project over such a table are the paths of the table that
match a source pattern and no exclude pattern. So they depend on the patterns as two sets, grow with
the source patterns and shrink with the exclude patterns.
-/

namespace Literate

namespace MemoryFiles
variable {m : MemoryFiles} {p q : Path} {s : Text} {es : List (Path × Text)}

/-- The tables that adding and removing files lead to. -/
inductive IsBuilt : MemoryFiles → Prop where
  | empty : IsBuilt .empty
  | insert {m : MemoryFiles} (h : IsBuilt m) (p : Path) (s : Text) : IsBuilt (m.insert p s)
  | erase {m : MemoryFiles} (h : IsBuilt m) (p : Path) : IsBuilt (m.erase p)

theorem mem_paths_insertEntry (h : q ∈ (insertEntry p s es).map Prod.fst) :
    q = p ∨ q ∈ es.map Prod.fst := by
  induction es with
  | nil => exact .inl (List.mem_singleton.1 h)
  | cons e es ih =>
    obtain ⟨r, u⟩ := e
    rw [insertEntry] at h
    split at h
    · exact .inr h
    · split at h
      · exact List.mem_cons.1 h
      · rcases List.mem_cons.1 h with rfl | hrest
        · exact .inr List.mem_cons_self
        · rcases ih hrest with rfl | hmem
          · exact .inl rfl
          · exact .inr (List.mem_cons_of_mem r hmem)

theorem pairwise_insertEntry (h : (es.map Prod.fst).Pairwise Path.Before) :
    ((insertEntry p s es).map Prod.fst).Pairwise Path.Before := by
  induction es with
  | nil => exact List.pairwise_singleton _ _
  | cons e es ih =>
    obtain ⟨r, u⟩ := e
    obtain ⟨hr, hes⟩ := List.pairwise_cons.1 h
    rw [insertEntry]
    split
    · exact h
    · rename_i hsame
      split
      · rename_i hle
        have hpr : p.Before r := ⟨hle, by simpa using hsame⟩
        apply List.pairwise_cons.2
        exact ⟨List.forall_mem_cons.2 ⟨hpr, fun q hq => hpr.trans (hr q hq)⟩, h⟩
      · rename_i hle
        refine List.pairwise_cons.2 ⟨fun q hq => ?_, ih hes⟩
        rcases mem_paths_insertEntry hq with rfl | hmem
        · exact Path.before_of_not_le hle
        · exact hr q hmem

theorem IsBuilt.pairwise (h : m.IsBuilt) : m.paths.Pairwise Path.Before := by
  induction h with
  | empty => exact .nil
  | insert _ p s ih => exact pairwise_insertEntry ih
  | erase _ p ih => exact ih.sublist (List.filter_sublist.map Prod.fst)

theorem IsBuilt.eq_of_same (h : m.IsBuilt) (hp : p ∈ m.paths) (hq : q ∈ m.paths)
    (hsame : p.same q = true) : p = q :=
  Path.eq_of_before h.pairwise hp hq hsame

end MemoryFiles

namespace Glob

/-- The text can be read as a pattern. -/
def IsPattern (source : Text) : Prop :=
  ∃ g, Pattern.read source = .ok g

/-- The pattern matches the path; `*` also takes separators. -/
def Matches (source : Text) (p : Path) : Prop :=
  ∃ g, Pattern.read source = .ok g ∧ g.matchesPath p = true

/-- The pattern matches the path; `*` stops at separators. -/
def MatchesComponents (source : Text) (p : Path) : Prop :=
  ∃ g, Pattern.read source = .ok g ∧ g.matchesComponents p = true

theorem exists_read_iff {source : Text} {P : Pattern → Bool} :
    (Pattern.read source).toOption.any P = true ↔ ∃ g, Pattern.read source = .ok g ∧ P g = true := by
  cases Pattern.read source with
  | error e => simp [Except.toOption]
  | ok g => simp [Except.toOption]

instance (source : Text) : Decidable (IsPattern source) :=
  decidable_of_iff ((Pattern.read source).toOption.any (fun _ => true) = true)
    (exists_read_iff.trans (exists_congr fun _ => and_iff_left rfl))

instance (source : Text) (p : Path) : Decidable (Matches source p) :=
  decidable_of_iff _ (exists_read_iff (P := (·.matchesPath p)))

instance (source : Text) (p : Path) : Decidable (MatchesComponents source p) :=
  decidable_of_iff _ (exists_read_iff (P := (·.matchesComponents p)))

end Glob

namespace Settings

structure ReadablePatterns (s : Settings) : Prop where
  sources : ∀ x ∈ s.sourcePatterns, Glob.IsPattern x
  exclude : ∀ x ∈ s.exclude, Glob.IsPattern x

/-- The path matches a source pattern and no exclude pattern. -/
def IsSource (s : Settings) (p : Path) : Prop :=
  (∃ x ∈ s.sourcePatterns, Glob.Matches x p) ∧ ∀ x ∈ s.exclude, ¬ Glob.MatchesComponents x p

instance (s : Settings) (p : Path) : Decidable (s.IsSource p) :=
  inferInstanceAs (Decidable (_ ∧ _))

theorem IsSource.mono {s s' : Settings} {p : Path} (h : s.IsSource p)
    (hsources : s.sourcePatterns ⊆ s'.sourcePatterns) (hexclude : s'.exclude ⊆ s.exclude) :
    s'.IsSource p := by
  obtain ⟨⟨x, hx, hmatches⟩, hkept⟩ := h
  exact ⟨⟨x, hsources hx, hmatches⟩, fun y hy => hkept y (hexclude hy)⟩

end Settings

namespace Project
variable {pr : Project} {m : MemoryFiles} {settings settings' : Settings} {base p : Path}
  {keep : Path → Bool} {patterns : List Text}

theorem matching_eq_mapM (pr : Project) (keep : Path → Bool) (patterns : List Text) :
    pr.matching keep patterns =
      (patterns.mapM pr.globAccess).map fun founds => founds.flatMap (·.filter keep) := by
  induction patterns with
  | nil => rfl
  | cons x patterns ih =>
    rw [matching, ih]
    cases hx : pr.globAccess x with
    | error e => rw [mapM_cons_of_error hx]; rfl
    | ok found =>
      rw [mapM_cons_of_ok hx]
      cases patterns.mapM pr.globAccess with
      | error e => rfl
      | ok founds => rfl

theorem exists_readPatterns (h : ∀ x ∈ patterns, Glob.IsPattern x) :
    ∃ gs, readPatterns patterns = .ok gs ∧
      ∀ P : Glob.Pattern → Bool, gs.any P = true ↔
        ∃ x ∈ patterns, ∃ g, Glob.Pattern.read x = .ok g ∧ P g = true := by
  obtain ⟨gs, hgs⟩ := exists_mapM_eq_ok_iff.2 h
  refine ⟨gs, by rw [readPatterns, hgs], fun P => ?_⟩
  rw [List.any_eq_true]
  exact exists_mem_results_iff hgs

/-- The project over files in memory. -/
def inMemory (settings : Settings) (base : Path) (m : MemoryFiles) : Project :=
  ⟨settings, base, m.files⟩

theorem globAccess_inMemory {x : Text} {found : List Path} :
    (inMemory settings base m).globAccess x = .ok found ↔
      ∃ g, Glob.Pattern.read x = .ok g ∧ m.paths.filter g.matchesPath = found := by
  simp only [globAccess, inMemory, MemoryFiles.files, MemoryFiles.glob]
  cases Glob.Pattern.read x with
  | error e => simp
  | ok g => simp

theorem exists_matching (settings : Settings) (base : Path) (m : MemoryFiles)
    (keep : Path → Bool) (h : ∀ x ∈ patterns, Glob.IsPattern x) :
    ∃ found, (inMemory settings base m).matching keep patterns = .ok found ∧
      ∀ p, p ∈ found ↔ p ∈ m.paths ∧ keep p = true ∧ ∃ x ∈ patterns, Glob.Matches x p := by
  have hglob : ∀ x ∈ patterns, ∃ found, (inMemory settings base m).globAccess x = .ok found := by
    intro x hx
    obtain ⟨g, hg⟩ := h x hx
    exact ⟨_, globAccess_inMemory.2 ⟨g, hg, rfl⟩⟩
  obtain ⟨founds, hfounds⟩ := exists_mapM_eq_ok_iff.2 hglob
  refine ⟨_, by rw [matching_eq_mapM, hfounds]; rfl, fun p => ?_⟩
  rw [List.mem_flatMap, exists_mem_results_iff hfounds]
  simp only [globAccess_inMemory, Glob.Matches]
  constructor
  · intro hp
    obtain ⟨x, hx, _, ⟨g, hg, rfl⟩, hmem⟩ := hp
    obtain ⟨hfound, hkeep⟩ := List.mem_filter.1 hmem
    obtain ⟨hstored, hmatch⟩ := List.mem_filter.1 hfound
    exact ⟨hstored, hkeep, x, hx, g, hg, hmatch⟩
  · intro hp
    obtain ⟨hstored, hkeep, x, hx, g, hg, hmatch⟩ := hp
    refine ⟨x, hx, _, ⟨g, hg, rfl⟩, ?_⟩
    exact List.mem_filter.2 ⟨List.mem_filter.2 ⟨hstored, hmatch⟩, hkeep⟩

/-- The source files are what the patterns say, in increasing order. -/
theorem exists_sourceFiles (hm : m.IsBuilt) (base : Path) (hpatterns : settings.ReadablePatterns) :
    ∃ found, (inMemory settings base m).sourceFiles = .ok found ∧ found.Pairwise Path.Before ∧
      ∀ p, p ∈ found ↔ p ∈ m.paths ∧ settings.IsSource p := by
  obtain ⟨exclude, hexclude, hexcluded⟩ := exists_readPatterns hpatterns.exclude
  obtain ⟨found, hfound, hmem⟩ := exists_matching settings base m
    (fun p => !isExcluded exclude p) hpatterns.sources
  have hstored : ∀ p ∈ found, p ∈ m.paths := fun p hp => ((hmem p).1 hp).1
  refine ⟨Path.sortDistinct found, ?_, Path.pairwise_sortDistinct found, fun p => ?_⟩
  · have hsources : (inMemory settings base m).settings = settings := rfl
    simp only [sourceFiles, hsources, hexclude, hfound]
  · -- the table has one spelling of each path, so only true repetitions are dropped
    rw [Path.mem_sortDistinct_iff fun p hp q hq => hm.eq_of_same (hstored p hp) (hstored q hq),
      hmem]
    have hkeep : (!isExcluded exclude p) = true ↔
        ∀ x ∈ settings.exclude, ¬ Glob.MatchesComponents x p := by
      rw [Bool.not_eq_true', Bool.eq_false_iff, Ne, isExcluded, hexcluded]
      simp [Glob.MatchesComponents]
    rw [hkeep]
    exact and_congr_right fun _ => and_comm

/-- The source files of a project in memory are the stored paths that match a source pattern and no
exclude pattern, in strictly increasing order. They depend on the patterns as sets, and with more
source patterns and fewer exclude patterns there are only more of them. -/
theorem sourceFiles_inMemory (hm : m.IsBuilt) (base : Path)
    (hpatterns : settings.ReadablePatterns) :
    ∃ found, (inMemory settings base m).sourceFiles = .ok found ∧
      (∀ p, p ∈ found ↔ p ∈ m.paths ∧ settings.IsSource p) ∧ found.Pairwise Path.Before ∧
      (∀ settings' : Settings,
        (∀ x, x ∈ settings'.sourcePatterns ↔ x ∈ settings.sourcePatterns) →
        (∀ x, x ∈ settings'.exclude ↔ x ∈ settings.exclude) →
        (inMemory settings' base m).sourceFiles = .ok found) ∧
      ∀ settings' : Settings, settings'.ReadablePatterns →
        settings.sourcePatterns ⊆ settings'.sourcePatterns → settings'.exclude ⊆ settings.exclude →
        ∃ found', (inMemory settings' base m).sourceFiles = .ok found' ∧ found.Sublist found' := by
  obtain ⟨found, hfound, hordered, hmem⟩ := exists_sourceFiles hm base hpatterns
  refine ⟨found, hfound, hmem, hordered, ?_, ?_⟩
  · intro settings' hsources hexclude
    have hpatterns' : settings'.ReadablePatterns :=
      ⟨fun x hx => hpatterns.sources x ((hsources x).1 hx),
        fun x hx => hpatterns.exclude x ((hexclude x).1 hx)⟩
    obtain ⟨found', hfound', hordered', hmem'⟩ := exists_sourceFiles hm base hpatterns'
    have hsame : found' = found := by
      apply hordered'.eq_of_mem_iff hordered
      intro p
      rw [hmem', hmem]
      simp only [Settings.IsSource, hsources, hexclude]
    rw [hfound', hsame]
  · intro settings' hpatterns' hsources hexclude
    obtain ⟨found', hfound', hordered', hmem'⟩ := exists_sourceFiles hm base hpatterns'
    refine ⟨found', hfound', Path.sublist_of_subset hordered hordered' fun p hp => ?_⟩
    obtain ⟨hstored, hsource⟩ := (hmem p).1 hp
    exact (hmem' p).2 ⟨hstored, hsource.mono hsources hexclude⟩

/-- Both patterns match `docs/b.md`, which is listed once; the last path is excluded. -/
theorem sourceFiles_inMemory_overlap :
    let docs : Path := ⟨"docs/b.md".toList⟩
    let start : Path := ⟨"a.md".toList⟩
    let made : Path := ⟨"docs/target/c.md".toList⟩
    let m := ((MemoryFiles.empty.insert docs []).insert start []).insert made []
    let settings : Settings :=
      { Settings.default with sourcePatterns := ["docs/*".toList, "**/*.md".toList] }
    (inMemory settings ⟨['/']⟩ m).sourceFiles = .ok [start, docs] ∧
      start.Before docs ∧ made ∈ m.paths ∧ ¬ settings.IsSource made := by
  intro docs start made m settings
  have hm : m.IsBuilt := .insert (.insert (.insert .empty docs []) start []) made []
  have hpatterns : settings.ReadablePatterns := ⟨by decide +kernel, by decide +kernel⟩
  obtain ⟨found, hfound, hmem, hordered, _⟩ := sourceFiles_inMemory hm ⟨['/']⟩ hpatterns
  have hbefore : start.Before docs := by
    unfold Path.Before
    decide +kernel
  have hpaths : m.paths = [start, docs, made] := by decide +kernel
  have hsources : [start, docs, made].filter (fun p => decide (settings.IsSource p)) =
      [start, docs] := by
    decide +kernel
  have hlist : found = [start, docs] := by
    apply hordered.eq_of_mem_iff (List.pairwise_pair.2 hbefore)
    intro p
    rw [hmem, hpaths, ← hsources, List.mem_filter, decide_eq_true_iff]
  rw [hfound, hlist, hpaths]
  exact ⟨rfl, hbefore, by simp, by decide +kernel⟩

end Project

end Literate
