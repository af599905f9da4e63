import Literate.Proofs.NamedSources
import Literate.Proofs.Obstacles
import Literate.Proofs.Spelling

/-!
# Documents selected by names and patterns

The tangle command takes names of documents and patterns. A name is given as seen from the base
directory or with the base directory in front of it. The selection consists of the named documents
and of the source files that a pattern matches, in increasing order, and it depends on the names and
on the patterns as two sets. So do the queued writes, and if all source files are selected, they are
those of a command that names none.
-/

namespace Literate

namespace Path
variable {base f d e : Path}

/-- The name `f`, as seen from `base` or with `base` in front of it, stands for `d`. -/
def Names (base f d : Path) : Prop :=
  ∃ r : Path, r.isAbsolute = false ∧ .current ∉ r.components ∧ (f = r ∨ f = base.join r) ∧
    r.same d = true

theorem same_relativeTo (hbase : base.isAbsolute = true) (h : base.Names f d) :
    (relativeTo base f).same d = true := by
  obtain ⟨r, hrel, hcurrent, rfl | rfl, hsame⟩ := h
  · rw [relativeTo_of_not_isPrefix (not_isPrefix_of_isAbsolute hbase hrel)]
    exact hsame
  · have hne := text_ne_nil_of_isAbsolute hbase
    have hjoin := components_join hrel hne
    obtain ⟨q, hq, _, hsteps, hcomponents⟩ :=
      exists_stripBase? (hjoin ▸ List.prefix_append base.components r.steps) hne
    rw [hjoin] at hcomponents
    have hr : r.components = r.steps := by
      rcases components_eq_or_cons hrel with hr | hr
      · exact hr
      · rw [hr] at hcurrent
        exact absurd List.mem_cons_self hcurrent
    have hqr : q.same r = true := by
      rw [same, decide_eq_true_iff, hsteps, hr, List.append_cancel_left hcomponents]
    rw [relativeTo, hq, Option.getD_some]
    exact same_trans hqr hsame

theorem Names.of_same (h : base.Names f d) (hsame : d.same e = true) : base.Names f e := by
  obtain ⟨r, hrel, hcurrent, hspelled, hrd⟩ := h
  exact ⟨r, hrel, hcurrent, hspelled, same_trans hrd hsame⟩

/-- A name stands for one path, which is the name as seen from the base directory. -/
theorem names_iff (hbase : base.isAbsolute = true) (h : ∃ d, base.Names f d) :
    base.Names f d ↔ (relativeTo base f).same d = true := by
  refine ⟨same_relativeTo hbase, fun hd => ?_⟩
  obtain ⟨e, he⟩ := h
  have hf := same_relativeTo hbase he
  rw [same_comm] at hf
  exact he.of_same (same_trans hf hd)

end Path

namespace Project
variable {pr : Project} {all found named files files' docs : List Path} {globs globs' : List Text}
  {base d p : Path} {settings : Settings} {m : MemoryFiles} {x : Text} {ws : Transaction}

theorem known_eq_ok_iff :
    pr.known all files = .ok named ↔
      (∀ f ∈ files, (Path.relativeTo pr.base f).isIn all = true) ∧
        files.map (Path.relativeTo pr.base) = named := by
  induction files generalizing named with
  | nil => simp [known]
  | cons f files ih =>
    rw [List.forall_mem_cons, List.map_cons, known]
    by_cases hf : (Path.relativeTo pr.base f).isIn all = true
    · rw [if_pos hf]
      cases hknown : pr.known all files with
      | error e =>
        constructor
        · intro h
          cases h
        · intro h
          cases hknown.symm.trans (ih.2 ⟨h.1.2, rfl⟩)
      | ok rest =>
        obtain ⟨hrest, rfl⟩ := ih.1 hknown
        rw [and_iff_right ⟨hf, hrest⟩, Except.ok.injEq]
    · rw [if_neg hf]
      simp [hf]

/-- The source files among the matches of a pattern; there has to be one. -/
def sourceMatches (pr : Project) (all : List Path) (pattern : Text) : Except Fault (List Path) :=
  match pr.globAccess pattern with
  | .error e => .error e
  | .ok found =>
    match found.filter (·.isIn all) with
    | [] => .error (.settings (.noMatch pattern))
    | ps => .ok ps

theorem knownMatches_eq_mapM (pr : Project) (all : List Path) (globs : List Text) :
    pr.knownMatches all globs = (globs.mapM (pr.sourceMatches all)).map List.flatten := by
  induction globs with
  | nil => rfl
  | cons x globs ih =>
    have hx : pr.knownMatches all (x :: globs) =
        (pr.sourceMatches all x).bind fun ps => (pr.knownMatches all globs).map (ps ++ ·) := by
      rw [knownMatches, sourceMatches]
      cases pr.globAccess x with
      | error e => rfl
      | ok found =>
        dsimp only
        cases found.filter (·.isIn all) with
        | nil => rfl
        | cons q ps => cases pr.knownMatches all globs <;> rfl
    rw [hx, ih]
    cases hps : pr.sourceMatches all x with
    | error e => rw [mapM_cons_of_error hps]; rfl
    | ok ps =>
      rw [mapM_cons_of_ok hps]
      cases globs.mapM (pr.sourceMatches all) <;> rfl

theorem sourceMatches_eq_ok_iff {ps : List Path} :
    pr.sourceMatches all x = .ok ps ↔
      ∃ found, pr.globAccess x = .ok found ∧ found.filter (·.isIn all) = ps ∧ ps ≠ [] := by
  unfold sourceMatches
  cases pr.globAccess x with
  | error e => simp
  | ok found =>
    simp only [Except.ok.injEq, exists_eq_left']
    cases found.filter (·.isIn all) with
    | nil =>
      constructor
      · intro h
        cases h
      · intro h
        exact absurd h.1.symm h.2
    | cons q qs =>
      rw [Except.ok.injEq, and_iff_left_of_imp]
      rintro rfl
      exact List.cons_ne_nil q qs

section Stored
variable (hm : m.IsBuilt) (hall : ∀ p ∈ all, p ∈ m.paths)
include hm hall

theorem mem_of_sourceMatches {ps : List Path}
    (h : (inMemory settings base m).sourceMatches all x = .ok ps) :
    p ∈ ps ↔ p ∈ all ∧ Glob.Matches x p := by
  obtain ⟨_, hglob, rfl, _⟩ := sourceMatches_eq_ok_iff.1 h
  obtain ⟨g, hg, rfl⟩ := globAccess_inMemory.1 hglob
  rw [List.mem_filter, List.mem_filter, Path.isIn_iff]
  constructor
  · intro hp
    obtain ⟨⟨hstored, hmatch⟩, q, hq, hsame⟩ := hp
    cases hm.eq_of_same hstored (hall q hq) hsame
    exact ⟨hq, g, hg, hmatch⟩
  · intro hp
    obtain ⟨hp, g', hg', hmatch⟩ := hp
    cases hg.symm.trans hg'
    exact ⟨⟨hall p hp, hmatch⟩, p, hp, Path.same_refl p⟩

theorem exists_sourceMatches_iff :
    (∃ ps, (inMemory settings base m).sourceMatches all x = .ok ps) ↔
      ∃ p ∈ all, Glob.Matches x p := by
  constructor
  · intro h
    obtain ⟨ps, hps⟩ := h
    obtain ⟨_, _, _, hne⟩ := sourceMatches_eq_ok_iff.1 hps
    obtain ⟨p, hp⟩ := List.exists_mem_of_ne_nil ps hne
    exact ⟨p, (mem_of_sourceMatches hm hall hps).1 hp⟩
  · intro h
    obtain ⟨p, hp, g, hg, hmatch⟩ := h
    have hglob : (inMemory settings base m).globAccess x = .ok (m.paths.filter g.matchesPath) :=
      globAccess_inMemory.2 ⟨g, hg, rfl⟩
    refine ⟨_, sourceMatches_eq_ok_iff.2 ⟨_, hglob, rfl, List.ne_nil_of_mem (a := p) ?_⟩⟩
    rw [List.mem_filter, List.mem_filter]
    exact ⟨⟨hall p hp, hmatch⟩, Path.isIn_of_mem hp⟩

theorem exists_knownMatches_iff :
    (∃ matched, (inMemory settings base m).knownMatches all globs = .ok matched) ↔
      ∀ x ∈ globs, ∃ p ∈ all, Glob.Matches x p := by
  rw [knownMatches_eq_mapM, exists_map_eq_ok_iff, exists_mapM_eq_ok_iff]
  simp only [exists_sourceMatches_iff hm hall]

theorem mem_of_knownMatches {matched : List Path}
    (h : (inMemory settings base m).knownMatches all globs = .ok matched) :
    p ∈ matched ↔ p ∈ all ∧ ∃ x ∈ globs, Glob.Matches x p := by
  rw [knownMatches_eq_mapM, map_eq_ok_iff] at h
  obtain ⟨founds, hfounds, rfl⟩ := h
  rw [List.mem_flatten, exists_mem_results_iff hfounds]
  constructor
  · intro hp
    obtain ⟨x, hx, ps, hps, hmem⟩ := hp
    obtain ⟨hp, hmatch⟩ := (mem_of_sourceMatches hm hall hps).1 hmem
    exact ⟨hp, x, hx, hmatch⟩
  · intro hp
    obtain ⟨hp, x, hx, hmatch⟩ := hp
    obtain ⟨ps, hps⟩ := (exists_sourceMatches_iff hm hall).2 ⟨p, hp, hmatch⟩
    exact ⟨x, hx, ps, hps, (mem_of_sourceMatches hm hall hps).2 ⟨hp, hmatch⟩⟩

end Stored

theorem selectGlobs_eq_map (h : pr.sourceFiles = .ok all) (globs : List Text) :
    pr.selectGlobs globs = (pr.knownMatches all globs).map Path.sortDistinct := by
  rw [selectGlobs, h]
  dsimp only
  cases pr.knownMatches all globs <;> rfl

theorem select_nil (pr : Project) : pr.select [] [] = pr.sourceFiles := rfl

theorem select_eq_ok_iff (h : pr.sourceFiles = .ok all) (hsome : ¬ (files = [] ∧ globs = [])) :
    pr.select files globs = .ok docs ↔
      ∃ named matched, pr.known all files = .ok named ∧ pr.knownMatches all globs = .ok matched ∧
        Path.sortDistinct (Path.sortDistinct named ++ Path.sortDistinct matched) = docs := by
  have hfiles : (if files.isEmpty then .ok [] else pr.selectFiles files) =
      (pr.known all files).map Path.sortDistinct := by
    rw [selectFiles_eq_map h]
    cases files with
    | nil => simp [known, Except.map, Path.sortDistinct_nil]
    | cons f files => rfl
  have hglobs : (if globs.isEmpty then .ok [] else pr.selectGlobs globs) =
      (pr.knownMatches all globs).map Path.sortDistinct := by
    rw [selectGlobs_eq_map h]
    cases globs with
    | nil => simp [knownMatches, Except.map, Path.sortDistinct_nil]
    | cons x globs => rfl
  rw [select, if_neg (by simpa using hsome), hfiles, hglobs]
  cases pr.known all files with
  | error e => simp [Except.map]
  | ok named =>
    cases pr.knownMatches all globs with
    | error e => simp [Except.map]
    | ok matched => simp [Except.map]

/-- Every name stands for a source file, and every pattern matches one. -/
structure Selectable (base : Path) (all files : List Path) (globs : List Text) : Prop where
  named : ∀ f ∈ files, ∃ d ∈ all, base.Names f d
  matched : ∀ x ∈ globs, ∃ d ∈ all, Glob.Matches x d

/-- The paths that names and patterns pick from the source files; without either, all. -/
inductive Picks (base : Path) (all files : List Path) (globs : List Text) (d : Path) : Prop where
  | all (hfiles : files = []) (hglobs : globs = []) (h : d.isIn all = true) :
      Picks base all files globs d
  | named {f : Path} (hf : f ∈ files) (h : base.Names f d) : Picks base all files globs d
  | matched {e : Path} {x : Text} (he : e ∈ all) (hx : x ∈ globs) (h : Glob.Matches x e)
      (hsame : d.same e = true) : Picks base all files globs d

theorem selectable_nil : Selectable base all [] [] :=
  ⟨List.forall_mem_nil _, List.forall_mem_nil _⟩

theorem Selectable.of_mem_iff (h : Selectable base all files globs)
    (hfiles : ∀ f, f ∈ files ↔ f ∈ files') (hglobs : ∀ x, x ∈ globs ↔ x ∈ globs') :
    Selectable base all files' globs' :=
  ⟨fun f hf => h.named f ((hfiles f).2 hf), fun x hx => h.matched x ((hglobs x).2 hx)⟩

theorem Picks.of_mem_iff (h : Picks base all files globs d)
    (hfiles : ∀ f, f ∈ files ↔ f ∈ files') (hglobs : ∀ x, x ∈ globs ↔ x ∈ globs') :
    Picks base all files' globs' d := by
  cases h with
  | all hf hx hd =>
    subst hf hx
    refine .all (List.eq_nil_iff_forall_not_mem.2 fun f hf => ?_)
      (List.eq_nil_iff_forall_not_mem.2 fun x hx => ?_) hd
    · exact List.not_mem_nil ((hfiles f).2 hf)
    · exact List.not_mem_nil ((hglobs x).2 hx)
  | named hf hnames => exact .named ((hfiles _).1 hf) hnames
  | matched he hx hmatch hsame => exact .matched he ((hglobs _).1 hx) hmatch hsame

theorem Picks.of_same (h : Picks base all files globs d) (hsame : p.same d = true) :
    Picks base all files globs p := by
  cases h with
  | all hf hx hd =>
    obtain ⟨e, he, hde⟩ := Path.isIn_iff.1 hd
    exact .all hf hx (Path.isIn_iff.2 ⟨e, he, Path.same_trans hsame hde⟩)
  | named hf hnames =>
    rw [Path.same_comm] at hsame
    exact .named hf (hnames.of_same hsame)
  | matched he hx hmatch hde => exact .matched he hx hmatch (Path.same_trans hsame hde)

/-- Nothing but source files is picked. -/
theorem Picks.isIn (hbase : base.isAbsolute = true) (h : Selectable base all files globs)
    (hd : Picks base all files globs d) : d.isIn all = true := by
  cases hd with
  | all _ _ hd => exact hd
  | named hf hnames =>
    obtain ⟨e, he, hnames'⟩ := h.named _ hf
    have hsame := Path.same_relativeTo hbase hnames
    rw [Path.same_comm] at hsame
    exact Path.isIn_iff.2 ⟨e, he, Path.same_trans hsame (Path.same_relativeTo hbase hnames')⟩
  | matched he _ _ hsame => exact Path.isIn_iff.2 ⟨_, he, hsame⟩

/-- A selection of all source files picks what is picked without names and patterns. -/
theorem picks_iff_of_all (hbase : base.isAbsolute = true) (h : Selectable base all files globs)
    (hcover : ∀ d ∈ all, Picks base all files globs d) (d : Path) :
    Picks base all files globs d ↔ Picks base all [] [] d := by
  constructor
  · intro hd
    exact .all rfl rfl (hd.isIn hbase h)
  · intro hd
    obtain ⟨e, he, hsame⟩ := Path.isIn_iff.1 (hd.isIn hbase selectable_nil)
    exact (hcover e he).of_same hsame

/-- The writes that the command queues for a selection. -/
def Queues (pr : Project) (files : List Path) (globs : List Text) (ws : Transaction) : Prop :=
  ∃ docs, pr.select files globs = .ok docs ∧ pr.tangle docs = .ok ws

/-- `all` are the source files of a project in memory with an absolute base directory. -/
structure IsSourceList (settings : Settings) (base : Path) (m : MemoryFiles) (all : List Path) :
    Prop where
  built : m.IsBuilt
  absolute : base.isAbsolute = true
  sourceFiles_eq : (inMemory settings base m).sourceFiles = .ok all
  stored : ∀ p ∈ all, p ∈ m.paths
  ordered : all.Pairwise Path.Before

theorem exists_sourceList (hm : m.IsBuilt) (hbase : base.isAbsolute = true)
    (hpatterns : settings.ReadablePatterns) : ∃ all, IsSourceList settings base m all := by
  obtain ⟨all, hall, hordered, hmem⟩ := exists_sourceFiles hm base hpatterns
  exact ⟨all, hm, hbase, hall, fun p hp => ((hmem p).1 hp).1, hordered⟩

section InMemory
variable (hfiles : ∀ f ∈ files, ∃ d, base.Names f d)
include hfiles

theorem exists_known_iff (hbase : base.isAbsolute = true) :
    (∃ named, (inMemory settings base m).known all files = .ok named) ↔
      ∀ f ∈ files, ∃ d ∈ all, base.Names f d := by
  simp only [known_eq_ok_iff, exists_and_left, exists_eq', and_true]
  refine forall₂_congr fun f hf => ?_
  rw [Path.isIn_iff]
  simp only [Path.names_iff hbase (hfiles f hf)]
  rfl

theorem exists_select_iff (hall : IsSourceList settings base m all) :
    (∃ docs, (inMemory settings base m).select files globs = .ok docs) ↔
      Selectable base all files globs := by
  by_cases hnone : files = [] ∧ globs = []
  · obtain ⟨rfl, rfl⟩ := hnone
    rw [select_nil]
    exact ⟨fun _ => selectable_nil, fun _ => ⟨all, hall.sourceFiles_eq⟩⟩
  · simp only [select_eq_ok_iff hall.sourceFiles_eq hnone]
    constructor
    · intro h
      obtain ⟨_, named, matched, hnamed, hmatched, _⟩ := h
      exact ⟨(exists_known_iff hfiles hall.absolute).1 ⟨named, hnamed⟩,
        (exists_knownMatches_iff hall.built hall.stored).1 ⟨matched, hmatched⟩⟩
    · intro h
      obtain ⟨named, hnamed⟩ := (exists_known_iff hfiles hall.absolute).2 h.named
      obtain ⟨matched, hmatched⟩ := (exists_knownMatches_iff hall.built hall.stored).2 h.matched
      exact ⟨_, named, matched, hnamed, hmatched, rfl⟩

/-- What is selected stands in increasing order, and it is what names and patterns pick. -/
theorem picks_of_select (hall : IsSourceList settings base m all)
    (h : (inMemory settings base m).select files globs = .ok docs) :
    docs.Pairwise Path.Before ∧ (∀ d, d.isIn docs = true ↔ Picks base all files globs d) ∧
      ∀ d ∈ docs, d ∈ files.map (Path.relativeTo base) ∨ d ∈ all := by
  by_cases hnone : files = [] ∧ globs = []
  · obtain ⟨rfl, rfl⟩ := hnone
    rw [select_nil, hall.sourceFiles_eq] at h
    cases h
    refine ⟨hall.ordered, fun d => ⟨.all rfl rfl, fun hd => ?_⟩, fun d hd => .inr hd⟩
    cases hd with
    | all _ _ hd => exact hd
    | named hf _ => exact absurd hf List.not_mem_nil
    | matched _ hx _ _ => exact absurd hx List.not_mem_nil
  · obtain ⟨named, matched, hnamed, hmatched, rfl⟩ := (select_eq_ok_iff hall.sourceFiles_eq hnone).1 h
    obtain ⟨_, rfl⟩ := known_eq_ok_iff.1 hnamed
    have hmem := fun p => mem_of_knownMatches (p := p) hall.built hall.stored hmatched
    refine ⟨Path.pairwise_sortDistinct _, fun d => ?_, fun d hd => ?_⟩
    · -- both kinds are sorted before they are sorted together, and sorting keeps the paths
      rw [Path.isIn_sortDistinct, Path.isIn_append, Path.isIn_sortDistinct, Path.isIn_sortDistinct,
        Path.isIn_iff, Path.isIn_iff]
      constructor
      · rintro (⟨q, hq, hsame⟩ | ⟨q, hq, hsame⟩)
        · obtain ⟨f, hf, rfl⟩ := List.mem_map.1 hq
          rw [Path.same_comm] at hsame
          exact .named hf ((Path.names_iff hall.absolute (hfiles f hf)).2 hsame)
        · obtain ⟨hq, x, hx, hmatch⟩ := (hmem q).1 hq
          exact .matched hq hx hmatch hsame
      · intro hd
        cases hd with
        | all hf hx _ => exact absurd ⟨hf, hx⟩ hnone
        | @named f hf hnames =>
          refine .inl ⟨_, List.mem_map_of_mem hf, ?_⟩
          rw [Path.same_comm]
          exact Path.same_relativeTo hall.absolute hnames
        | @matched e x he hx hmatch hsame => exact .inr ⟨e, (hmem e).2 ⟨he, x, hx, hmatch⟩, hsame⟩
    · rcases List.mem_append.1 (Path.mem_of_mem_sortDistinct hd) with hd | hd
      · exact .inl (Path.mem_of_mem_sortDistinct hd)
      · exact .inr ((hmem d).1 (Path.mem_of_mem_sortDistinct hd)).1

/-- Selections that pick the same paths queue the same writes. -/
theorem Queues.of_picks (hall : IsSourceList settings base m all)
    (hfiles' : ∀ f ∈ files', ∃ d, base.Names f d)
    (hselectable : Selectable base all files globs → Selectable base all files' globs')
    (hpicks : ∀ d, Picks base all files globs d ↔ Picks base all files' globs' d)
    (h : (inMemory settings base m).Queues files globs ws) :
    (inMemory settings base m).Queues files' globs' ws := by
  obtain ⟨docs, hdocs, htangle⟩ := h
  obtain ⟨docs', hdocs'⟩ := (exists_select_iff hfiles' hall).2
    (hselectable ((exists_select_iff hfiles hall).1 ⟨docs, hdocs⟩))
  obtain ⟨hbefore, hin, _⟩ := picks_of_select hfiles hall hdocs
  obtain ⟨hbefore', hin', _⟩ := picks_of_select hfiles' hall hdocs'
  -- a path may be spelled as in one of its names, and other names spell it otherwise
  have hsame := Path.forall₂_same hbefore hbefore' fun d => by rw [hin, hin', hpicks]
  exact ⟨docs', hdocs', (tangle_spellings hsame).1 htangle⟩

end InMemory

end Project

namespace Command
variable {t : FileTree} {p : Session} {pr : Project} {dryRun quiet : Bool}
  {files files' : List Path} {globs globs' : List Text} {ws : Transaction}

/-- The tree and the output that a command leaves, and whether it succeeds. -/
def Result.effect (r : Result) : FileTree × Text × Bool :=
  (r.tree, r.stdout, r.fault.isNone)

theorem effect_tangle_of_queues (h : pr.Queues files globs ws) :
    (tangle t p pr dryRun quiet globs files).effect = (commit t p dryRun quiet ws).effect := by
  obtain ⟨docs, hdocs, htangle⟩ := h
  simp only [tangle, hdocs, htangle, Result.effect]

theorem effect_tangle_of_not_queues (h : ∀ ws, ¬ pr.Queues files globs ws) :
    (tangle t p pr dryRun quiet globs files).effect = (t, [], false) := by
  cases hselect : pr.select files globs with
  | error e =>
    rw [tangle_of_select_error hselect]
    rfl
  | ok docs =>
    cases htangle : pr.tangle docs with
    | error e =>
      rw [tangle_of_tangle_error hselect htangle]
      rfl
    | ok ws => exact absurd ⟨docs, hselect, htangle⟩ (h ws)

theorem effect_tangle_congr (h : ∀ ws, pr.Queues files globs ws ↔ pr.Queues files' globs' ws) :
    (tangle t p pr dryRun quiet globs files).effect =
      (tangle t p pr dryRun quiet globs' files').effect := by
  by_cases hqueues : ∃ ws, pr.Queues files globs ws
  · obtain ⟨ws, hws⟩ := hqueues
    rw [effect_tangle_of_queues hws, effect_tangle_of_queues ((h ws).1 hws)]
  · rw [not_exists] at hqueues
    rw [effect_tangle_of_not_queues hqueues,
      effect_tangle_of_not_queues fun ws hws => hqueues ws ((h ws).2 hws)]

end Command

namespace Project
variable {all files files' : List Path} {globs globs' : List Text} {base : Path}
  {settings : Settings} {m : MemoryFiles}

/-- Two selections succeed together, queue the same writes and have the same effect. -/
structure Agree (pr : Project) (files : List Path) (globs : List Text) (files' : List Path)
    (globs' : List Text) : Prop where
  select_iff : (∃ docs, pr.select files globs = .ok docs) ↔ ∃ docs, pr.select files' globs' = .ok docs
  queues_iff : ∀ ws, pr.Queues files globs ws ↔ pr.Queues files' globs' ws
  effect_eq : ∀ t p dryRun quiet, (Command.tangle t p pr dryRun quiet globs files).effect =
    (Command.tangle t p pr dryRun quiet globs' files').effect

theorem agree_of_picks (hall : IsSourceList settings base m all)
    (hfiles : ∀ f ∈ files, ∃ d, base.Names f d) (hfiles' : ∀ f ∈ files', ∃ d, base.Names f d)
    (hselectable : Selectable base all files globs ↔ Selectable base all files' globs')
    (hpicks : ∀ d, Picks base all files globs d ↔ Picks base all files' globs' d) :
    (inMemory settings base m).Agree files globs files' globs' := by
  have hqueues : ∀ ws, (inMemory settings base m).Queues files globs ws ↔
      (inMemory settings base m).Queues files' globs' ws := by
    intro ws
    constructor
    · exact Queues.of_picks hfiles hall hfiles' hselectable.1 hpicks
    · exact Queues.of_picks hfiles' hall hfiles hselectable.2 fun d => (hpicks d).symm
  refine ⟨?_, hqueues, fun t p dryRun quiet => Command.effect_tangle_congr hqueues⟩
  rw [exists_select_iff hfiles hall, exists_select_iff hfiles' hall, hselectable]

/-- The documents of a selection are the named ones together with the source files that a pattern
matches, in increasing order; the selection succeeds if every name stands for a source file and
every pattern matches one. Other names and patterns with the same members give the same writes, and
a selection of all source files gives those of an empty one. -/
theorem select_inMemory (hm : m.IsBuilt) (hbase : base.isAbsolute = true)
    (hpatterns : settings.ReadablePatterns) (hfiles : ∀ f ∈ files, ∃ d, base.Names f d)
    (globs : List Text) :
    ∃ all, (inMemory settings base m).sourceFiles = .ok all ∧
      ((∃ docs, (inMemory settings base m).select files globs = .ok docs) ↔
        Selectable base all files globs) ∧
      (∀ docs, (inMemory settings base m).select files globs = .ok docs →
        docs.Pairwise Path.Before ∧ (∀ d, d.isIn docs = true ↔ Picks base all files globs d) ∧
          ∀ d ∈ docs, d ∈ files.map (Path.relativeTo base) ∨ d ∈ all) ∧
      (∀ files' globs', (∀ f, f ∈ files ↔ f ∈ files') → (∀ x, x ∈ globs ↔ x ∈ globs') →
        (inMemory settings base m).Agree files globs files' globs') ∧
      (Selectable base all files globs → (∀ d ∈ all, Picks base all files globs d) →
        (inMemory settings base m).Agree files globs [] []) := by
  obtain ⟨all, hall⟩ := exists_sourceList hm hbase hpatterns
  refine ⟨all, hall.sourceFiles_eq, exists_select_iff hfiles hall,
    fun docs => picks_of_select hfiles hall, ?_, ?_⟩
  · intro files' globs' hf hx
    have hfiles' : ∀ f ∈ files', ∃ d, base.Names f d := fun f h => hfiles f ((hf f).2 h)
    refine agree_of_picks hall hfiles hfiles' ?_ fun d => ?_
    · exact ⟨fun h => h.of_mem_iff hf hx,
        fun h => h.of_mem_iff (fun f => (hf f).symm) fun x => (hx x).symm⟩
    · exact ⟨fun h => h.of_mem_iff hf hx,
        fun h => h.of_mem_iff (fun f => (hf f).symm) fun x => (hx x).symm⟩
  · intro hselectable hcover
    exact agree_of_picks hall hfiles (List.forall_mem_nil _)
      (iff_of_true hselectable selectable_nil) (picks_iff_of_all hbase hselectable hcover)

/-- The later document comes first, in two spellings and by a pattern, and the earlier one has the
base directory in front. -/
theorem select_inMemory_whole :
    let base : Path := ⟨"/w".toList⟩
    let a : Path := ⟨"a.md".toList⟩
    let b : Path := ⟨"docs/b.md".toList⟩
    let m := (MemoryFiles.empty.insert b "```js\n2\n```".toList).insert a "```js\n1\n```".toList
    let pr := inMemory .default base m
    let files : List Path := [b, ⟨"docs//b.md".toList⟩, ⟨"/w/a.md".toList⟩]
    let globs : List Text := ["docs/*".toList]
    (∀ f ∈ files, ∃ d, base.Names f d) ∧
      (∃ docs, pr.select files globs = .ok docs ∧ a.isIn docs = true ∧ b.isIn docs = true) ∧
      pr.Agree files globs [] [] := by
  intro base a b m pr files globs
  have hm : m.IsBuilt := .insert (.insert .empty b _) a _
  have hpatterns : Settings.default.ReadablePatterns := ⟨by decide +kernel, by decide +kernel⟩
  have hb : base.Names b b := ⟨b, by decide +kernel, by decide +kernel, .inl rfl, Path.same_refl b⟩
  have hspelled : base.Names ⟨"docs//b.md".toList⟩ b :=
    ⟨_, by decide +kernel, by decide +kernel, .inl rfl, by decide +kernel⟩
  have ha : base.Names ⟨"/w/a.md".toList⟩ a :=
    ⟨a, by decide +kernel, by decide +kernel, .inr (by decide +kernel), Path.same_refl a⟩
  have hfiles : ∀ f ∈ files, ∃ d, base.Names f d := by
    simp only [files, List.forall_mem_cons]
    exact ⟨⟨b, hb⟩, ⟨b, hspelled⟩, ⟨a, ha⟩, List.forall_mem_nil _⟩
  obtain ⟨all, hall, hselect, hpicks, _, hwhole⟩ :=
    select_inMemory hm (by decide +kernel) hpatterns hfiles globs
  -- the two paths of the table are source files
  obtain ⟨found, hfound, _, hmem⟩ := exists_sourceFiles hm base hpatterns
  cases hall.symm.trans hfound
  have hma : a ∈ all := (hmem a).2 ⟨by decide +kernel, by decide +kernel⟩
  have hmb : b ∈ all := (hmem b).2 ⟨by decide +kernel, by decide +kernel⟩
  have hcover : ∀ d ∈ all, Picks base all files globs d := by
    intro d hd
    have hpaths : m.paths = [a, b] := by decide +kernel
    have hd := ((hmem d).1 hd).1
    rw [hpaths, List.mem_pair] at hd
    rcases hd with rfl | rfl
    · exact .named (by simp [files]) ha
    · exact .named (by simp [files]) hb
  have hselectable : Selectable base all files globs := by
    constructor
    · simp only [files, List.forall_mem_cons]
      exact ⟨⟨b, hmb, hb⟩, ⟨b, hmb, hspelled⟩, ⟨a, hma, ha⟩, List.forall_mem_nil _⟩
    · simp only [globs, List.forall_mem_singleton]
      exact ⟨b, hmb, by decide +kernel⟩
  obtain ⟨docs, hdocs⟩ := hselect.2 hselectable
  obtain ⟨_, hin, _⟩ := hpicks docs hdocs
  exact ⟨hfiles, ⟨docs, hdocs, (hin a).2 (hcover a hma), (hin b).2 (hcover b hmb)⟩,
    hwhole hselectable hcover⟩

end Project

end Literate
