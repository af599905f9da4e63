import Literate.Command.Run
import Literate.Proofs.OutputPaths
import Literate.Proofs.Passes

/-!
# What keeps a command from writing

A pass over documents fails exactly if one of them cannot be read, a block of one is refused, or a
file of the store cannot be rendered. All this is settled before the first write, so that a command
which meets an obstacle leaves the tree as it is, no matter how far it has come.
-/

namespace Literate
variable {settings : Settings} {s : Store} {b : Block} {bs : List Block} {pr : Project}
  {paths : List Path}

/-- A block is refused for its label or, where no file may be created, for its file: no document
registers files. -/
inductive Settings.Refuses (settings : Settings) (b : Block) : Fault → Prop where
  | label {e : Fault} (h : b.scan settings.defaultFile = .error e) : Refuses settings b e
  | unregistered {scan : Scan} (hpolicy : settings.policy = .strict)
      (h : b.scan settings.defaultFile = .ok scan) :
      Refuses settings b (.unregisteredFile scan.label.file)

namespace Store

/-- A store as a pass over documents builds it. -/
structure IsUnder (settings : Settings) (s : Store) : Prop where
  policy : s.policy = settings.policy
  defaultFile : s.defaultFile = settings.defaultFile
  files : settings.policy = .strict → s.files = []

theorem isUnder_emptyStore (settings : Settings) : settings.emptyStore.IsUnder settings :=
  ⟨rfl, rfl, fun _ => rfl⟩

theorem add_cases (hs : s.IsUnder settings) (b : Block) :
    (∃ e, s.add b = (s, some e) ∧ settings.Refuses b e) ∨
      ∃ s', s.add b = (s', none) ∧ s'.IsUnder settings ∧ ∀ e, ¬ settings.Refuses b e := by
  unfold add
  rw [hs.defaultFile]
  cases hscan : b.scan settings.defaultFile with
  | error e => exact .inl ⟨e, rfl, .label hscan⟩
  | ok scan =>
    cases hpolicy : settings.policy with
    | strict =>
      have hnone : s.file? scan.label.file = none := by simp [file?, hs.files hpolicy]
      refine .inl ⟨.unregisteredFile scan.label.file, ?_, .unregistered hpolicy hscan⟩
      simp [hs.policy, hpolicy, hnone]
    | autoCreate =>
      have hcreate : ¬ (s.policy = .strict ∧ s.file? scan.label.file = none) := by
        simp [hs.policy, hpolicy]
      simp only [if_neg hcreate]
      refine .inr ⟨_, rfl, ⟨hs.policy, rfl, by simp [hpolicy]⟩, ?_⟩
      · intro e hrefuses
        cases hrefuses with
        | label h =>
          rw [hscan] at h
          cases h
        | unregistered hstrict _ =>
          rw [hpolicy] at hstrict
          cases hstrict

theorem addAll_cases (hs : s.IsUnder settings) (bs : List Block) :
    (∃ s' e, s.addAll bs = (s', some e) ∧ ∃ b ∈ bs, settings.Refuses b e) ∨
      ∃ s', s.addAll bs = (s', none) ∧ s'.IsUnder settings ∧
        ∀ b ∈ bs, ∀ e, ¬ settings.Refuses b e := by
  induction bs generalizing s with
  | nil => exact .inr ⟨s, rfl, hs, by simp⟩
  | cons b bs ih =>
    rcases add_cases hs b with ⟨e, hadd, hrefuses⟩ | ⟨s', hadd, hs', hfine⟩
    · exact .inl ⟨s, e, addAll_cons_of_refused hadd bs, b, List.mem_cons_self, hrefuses⟩
    · rw [addAll_cons_of_added hadd]
      rcases ih hs' with ⟨s'', e, hrest, c, hc, hrefuses⟩ | ⟨s'', hrest, hs'', hrestFine⟩
      · exact .inl ⟨s'', e, hrest, c, List.mem_cons_of_mem b hc, hrefuses⟩
      · exact .inr ⟨s'', hrest, hs'', List.forall_mem_cons.2 ⟨hfine, hrestFine⟩⟩

end Store

namespace Project

/-- A document from which no blocks can be taken. -/
inductive Hinders (pr : Project) (d : Path) : Fault → Prop where
  | unreadable {e : AccessError} (h : pr.files.read d = .error e) : Hinders pr d (.access e)
  | refused {t : Text} {b : Block} {e : Fault} (h : pr.files.read d = .ok t)
      (hb : b ∈ (Document.read pr.settings (some d) t).blocks) (he : pr.settings.Refuses b e) :
      Hinders pr d e

/-- What stands in the way of a pass: a document, or a file that cannot be rendered. -/
inductive Obstacle (pr : Project) (paths : List Path) : Fault → Prop where
  | document {d : Path} {e : Fault} (hd : d ∈ paths) (h : pr.Hinders d e) : Obstacle pr paths e
  | file {s : Store} {name : Text} {e : Fault} (hs : pr.collect paths = .ok s)
      (hname : name ∈ s.names) (h : pr.renderOutput s name = .error e) : Obstacle pr paths e

/-- Where a pass stops, the document is what hinders it. -/
theorem StopsAt.hinders {d : Path} {e : Fault} (hs : s.IsUnder pr.settings)
    (h : pr.StopsAt s d e) : pr.Hinders d e := by
  cases h with
  | unreadable hread => exact .unreadable hread
  | refused hread hadd =>
    rcases Store.addAll_cases hs (pr.blocksOf d) with
      ⟨_, e', hadd', b, hb, hrefuses⟩ | ⟨_, hadd', _⟩
    · cases hadd.symm.trans hadd'
      simp only [blocksOf, hread] at hb
      exact .refused hread hb hrefuses
    · cases hadd.symm.trans hadd'

theorem collectInto_cases (hs : s.IsUnder pr.settings) (paths : List Path) :
    (∃ e, pr.collectInto s paths = .error e ∧ ∃ d ∈ paths, pr.Hinders d e) ∨
      ∃ s', pr.collectInto s paths = .ok s' ∧ ∀ d ∈ paths, ∀ e, ¬ pr.Hinders d e := by
  -- blocks that could all be added leave a store of the same kind, and none of them is refused
  have hadded : ∀ {docs s'}, pr.collectInto s docs = .ok s' → s'.IsUnder pr.settings ∧
      ∀ b ∈ docs.flatMap pr.blocksOf, ∀ e, ¬ pr.settings.Refuses b e := by
    intro docs s' h
    rcases Store.addAll_cases hs (docs.flatMap pr.blocksOf) with ⟨_, _, hadd, _⟩ | ⟨_, hadd, hfine⟩
    · cases (collectInto_eq_ok_iff.1 h).2.symm.trans hadd
    · cases (collectInto_eq_ok_iff.1 h).2.symm.trans hadd
      exact hfine
  cases hcollect : pr.collectInto s paths with
  | error e =>
    obtain ⟨earlier, d, later, s', rfl, hearlier, hstops⟩ := collectInto_eq_error_iff.1 hcollect
    exact .inl ⟨e, rfl, d, List.mem_append_right _ List.mem_cons_self,
      hstops.hinders (hadded hearlier).1⟩
  | ok s' =>
    refine .inr ⟨s', rfl, fun d hd e hhinders => ?_⟩
    obtain ⟨t, hread⟩ := (collectInto_eq_ok_iff.1 hcollect).1 d hd
    cases hhinders with
    | unreadable h => cases hread.symm.trans h
    | refused h hb he =>
      refine (hadded hcollect).2 _ (List.mem_flatMap.2 ⟨d, hd, ?_⟩) e he
      simpa only [blocksOf, h] using hb

theorem queueNames_cases (pr : Project) (s : Store) (names : List Text) :
    (∃ e, pr.queueNames s names = .error e ∧ ∃ name ∈ names, pr.renderOutput s name = .error e) ∨
      ∃ ws, pr.queueNames s names = .ok ws ∧
        ∀ name ∈ names, ∀ e, pr.renderOutput s name ≠ .error e := by
  cases hqueue : pr.queueNames s names with
  | error e =>
    rw [queueNames_eq_mapM, mapM_eq_error_iff] at hqueue
    obtain ⟨earlier, name, later, rfl, _, he⟩ := hqueue
    exact .inl ⟨e, rfl, name, List.mem_append_right _ List.mem_cons_self, map_eq_error_iff.1 he⟩
  | ok ws =>
    rw [queueNames_eq_mapM] at hqueue
    refine .inr ⟨ws, rfl, ?_⟩
    intro name hname e he
    obtain ⟨w, hw⟩ := exists_mapM_eq_ok_iff.1 ⟨ws, hqueue⟩ name hname
    rw [he] at hw
    cases hw

/-- A pass reports one of the obstacles if there is any, and otherwise queues its writes. -/
theorem tangle_cases (pr : Project) (paths : List Path) :
    (∃ e, pr.tangle paths = .error e ∧ pr.Obstacle paths e) ∨
      ∃ ws, pr.tangle paths = .ok ws ∧ ∀ e, ¬ pr.Obstacle paths e := by
  unfold tangle
  rcases pr.collectInto_cases (Store.isUnder_emptyStore pr.settings) paths with
    ⟨e, hcollect, d, hd, hhinders⟩ | ⟨s, hcollect, hfine⟩
  · have hcollect : pr.collect paths = .error e := hcollect
    exact .inl ⟨e, by simp only [hcollect], .document hd hhinders⟩
  · have hcollect : pr.collect paths = .ok s := hcollect
    simp only [hcollect]
    rcases pr.queueNames_cases s s.names with ⟨e, hqueue, name, hname, he⟩ | ⟨ws, hqueue, hall⟩
    · exact .inl ⟨e, hqueue, .file hcollect hname he⟩
    · refine .inr ⟨ws, hqueue, fun e hobstacle => ?_⟩
      cases hobstacle with
      | document hd h => exact hfine _ hd e h
      | file hs hname h =>
        rw [hcollect] at hs
        cases hs
        exact hall _ hname e h

end Project

theorem Transaction.exists_access_of_executeFrom {p : Session} {n : Nat} {t u : FileTree}
    {ws : Transaction} {e : Fault} (h : executeFrom p n t ws = (u, .error e)) :
    ∃ c, e = .access c := by
  induction ws generalizing n t with
  | nil => cases h
  | cons w ws ih =>
    unfold executeFrom at h
    split at h
    · exact ih h
    · split at h
      · rename_i c _
        cases h
        exact ⟨c, rfl⟩
      · split at h
        · cases h
        · rename_i hrest
          cases h
          exact ih hrest

namespace Command
variable {t : FileTree} {p : Session} {i : Invocation} {dryRun quiet : Bool} {globs : List Text}
  {files : List Path}

/-- What stands in the way of a command: the configuration, the selection of documents, or what the
selected documents hold. -/
inductive Obstacle (t : FileTree) (p : Session) (i : Invocation) (globs : List Text)
    (files : List Path) : Fault → Prop where
  | configuration {e : Fault} (h : openProject t p i = .error e) : Obstacle t p i globs files e
  | selection {pr : Project} {e : Fault} (hpr : openProject t p i = .ok pr)
      (h : pr.select files globs = .error e) : Obstacle t p i globs files e
  | content {pr : Project} {paths : List Path} {e : Fault} (hpr : openProject t p i = .ok pr)
      (hpaths : pr.select files globs = .ok paths) (h : pr.Obstacle paths e) :
      Obstacle t p i globs files e

theorem tree_commit (t : FileTree) (p : Session) (dryRun quiet : Bool) (ws : Transaction) :
    (commit t p dryRun quiet ws).tree = t ∨
      dryRun = false ∧ (commit t p dryRun quiet ws).tree = (Transaction.execute t p ws).1 := by
  unfold commit
  simp only
  split
  · exact .inl rfl
  · split
    · exact .inl rfl
    · rename_i hdry
      right
      refine ⟨by simpa using hdry, ?_⟩
      split <;> simp_all

theorem fault_commit {ws : Transaction} {e : Fault}
    (h : (commit t p dryRun quiet ws).fault = some e) : ∃ c, e = .access c := by
  unfold commit at h
  simp only at h
  split at h
  · cases h
  · split at h
    · cases h
    · split at h
      · cases h
      · rename_i hexecute
        cases h
        exact Transaction.exists_access_of_executeFrom hexecute

theorem tree_display (t : FileTree) (pr : Project) (target : Text) :
    (display t pr target).tree = t := by
  unfold display
  split
  · rfl
  · split <;> rfl

theorem tree_list (t : FileTree) (pr : Project) (json : Bool) : (list t pr json).tree = t := by
  unfold list
  split <;> rfl

theorem run_of_openProject_error {e : Fault} (h : openProject t p i = .error e) :
    (run t p i).tree = t ∧
      (run t p i).ending = .failed ("Error initializing: ".toList ++ e.message) := by
  unfold run
  simp only [h, and_self]

theorem run_of_openProject_ok {pr : Project} (h : openProject t p i = .ok pr) :
    (run t p i).tree = (act t p pr i.action).tree ∧
      (run t p i).ending = (act t p pr i.action).ending := by
  unfold run
  simp only [h, and_self]

theorem tangle_of_select_error {pr : Project} {e : Fault} (h : pr.select files globs = .error e) :
    tangle t p pr dryRun quiet globs files = ⟨t, [], [], some e⟩ := by
  simp only [tangle, h]

section Selected
variable {pr : Project} {paths : List Path} (hselect : pr.select files globs = .ok paths)
include hselect

theorem tangle_of_tangle_error {e : Fault} (h : pr.tangle paths = .error e) :
    tangle t p pr dryRun quiet globs files = ⟨t, [], pr.tangleReport paths, some e⟩ := by
  simp only [tangle, hselect, h]

theorem tangle_of_tangle_ok {ws : Transaction} (h : pr.tangle paths = .ok ws) :
    (tangle t p pr dryRun quiet globs files).tree = (commit t p dryRun quiet ws).tree ∧
      (tangle t p pr dryRun quiet globs files).fault = (commit t p dryRun quiet ws).fault := by
  simp only [tangle, hselect, h, and_self]

end Selected

section Tangle
variable (hi : i.action = .tangle dryRun quiet globs files)
include hi

theorem run_tangle {pr : Project} (h : openProject t p i = .ok pr) :
    (run t p i).tree = (tangle t p pr dryRun quiet globs files).tree ∧
      (run t p i).ending = (ofResult (tangle t p pr dryRun quiet globs files)).ending := by
  obtain ⟨htree, hending⟩ := run_of_openProject_ok h
  rw [hi] at htree hending
  exact ⟨htree, hending⟩

theorem run_of_obstacle {e : Fault} (h : Obstacle t p i globs files e) :
    (run t p i).tree = t ∧ ∃ m, (run t p i).ending = .failed m := by
  cases h with
  | configuration h =>
    obtain ⟨htree, hending⟩ := run_of_openProject_error h
    exact ⟨htree, _, hending⟩
  | selection hpr h =>
    obtain ⟨htree, hending⟩ := run_tangle hi hpr
    rw [tangle_of_select_error h] at htree hending
    exact ⟨htree, _, hending⟩
  | content hpr hpaths h =>
    obtain ⟨htree, hending⟩ := run_tangle hi hpr
    -- The obstacle that is reported need not be the one at hand.
    rcases Project.tangle_cases _ _ with ⟨e', htangle, _⟩ | ⟨ws, _, hfine⟩
    · rw [tangle_of_tangle_error hpaths htangle] at htree hending
      exact ⟨htree, _, hending⟩
    · exact absurd h (hfine e)

/-- Without obstacles the tree is what committing the queued writes makes of it. -/
theorem obstacle_or_commit :
    (∃ e, Obstacle t p i globs files e) ∨
      ∃ pr paths ws, openProject t p i = .ok pr ∧ pr.select files globs = .ok paths ∧
        pr.tangle paths = .ok ws ∧ (run t p i).tree = (commit t p dryRun quiet ws).tree := by
  cases hopen : openProject t p i with
  | error e => exact .inl ⟨e, .configuration hopen⟩
  | ok pr =>
    cases hselect : pr.select files globs with
    | error e => exact .inl ⟨e, .selection hopen hselect⟩
    | ok paths =>
      rcases pr.tangle_cases paths with ⟨e, _, hobstacle⟩ | ⟨ws, htangle, _⟩
      · exact .inl ⟨e, .content hopen hselect hobstacle⟩
      · refine .inr ⟨pr, paths, ws, rfl, hselect, htangle, ?_⟩
        rw [(run_tangle hi hopen).1, (tangle_of_tangle_ok hselect htangle).1]

theorem tree_run_of_fault {pr : Project} {e : Fault} (h : openProject t p i = .ok pr)
    (hfault : (tangle t p pr dryRun quiet globs files).fault = some e)
    (hkind : ∀ c, e ≠ .access c) : (run t p i).tree = t := by
  cases hselect : pr.select files globs with
  | error e' => exact (run_of_obstacle hi (.selection h hselect)).1
  | ok paths =>
    rcases pr.tangle_cases paths with ⟨e', _, hobstacle⟩ | ⟨ws, htangle, _⟩
    · exact (run_of_obstacle hi (.content h hselect hobstacle)).1
    · rw [(tangle_of_tangle_ok hselect htangle).2] at hfault
      obtain ⟨c, hc⟩ := fault_commit hfault
      exact absurd hc (hkind c)

end Tangle

/-- Printing, listing and dry runs change nothing. A run that meets an obstacle fails and changes
nothing, and so does one that fails for any other reason than access to files. What changes a tree
is always a transaction that was queued without an obstacle. -/
theorem run_keeps_tree (t : FileTree) (p : Session) (i : Invocation) :
    (∀ target, i.action = .display target → (run t p i).tree = t) ∧
    (∀ json, i.action = .list json → (run t p i).tree = t) ∧
    ∀ dryRun quiet globs files, i.action = .tangle dryRun quiet globs files →
      (dryRun = true → (run t p i).tree = t) ∧
      (∀ e, Obstacle t p i globs files e →
        (run t p i).tree = t ∧ ∃ m, (run t p i).ending = .failed m) ∧
      (∀ pr e, openProject t p i = .ok pr →
        (tangle t p pr dryRun quiet globs files).fault = some e → (∀ c, e ≠ .access c) →
          (run t p i).tree = t) ∧
      ((run t p i).tree ≠ t → (∀ e, ¬ Obstacle t p i globs files e) ∧
        ∃ pr paths ws, openProject t p i = .ok pr ∧ pr.select files globs = .ok paths ∧
          pr.tangle paths = .ok ws ∧ (run t p i).tree = (Transaction.execute t p ws).1) := by
  refine ⟨fun target hi => ?_, fun json hi => ?_,
    fun dryRun quiet globs files hi => ⟨?_, ?_, ?_, ?_⟩⟩
  · cases hopen : openProject t p i with
    | error e => exact (run_of_openProject_error hopen).1
    | ok pr =>
      rw [(run_of_openProject_ok hopen).1, hi]
      exact tree_display t pr target
  · cases hopen : openProject t p i with
    | error e => exact (run_of_openProject_error hopen).1
    | ok pr =>
      rw [(run_of_openProject_ok hopen).1, hi]
      exact tree_list t pr json
  · intro hdry
    rcases obstacle_or_commit hi with ⟨e, hobstacle⟩ | ⟨pr, paths, ws, _, _, _, htree⟩
    · exact (run_of_obstacle hi hobstacle).1
    · rw [htree]
      rcases tree_commit t p dryRun quiet ws with hsame | ⟨hwet, _⟩
      · exact hsame
      · rw [hdry] at hwet
        cases hwet
  · exact fun e hobstacle => run_of_obstacle hi hobstacle
  · exact fun pr e hopen hfault hkind => tree_run_of_fault hi hopen hfault hkind
  · intro hchanged
    refine ⟨fun e hobstacle => hchanged (run_of_obstacle hi hobstacle).1, ?_⟩
    rcases obstacle_or_commit hi with
      ⟨e, hobstacle⟩ | ⟨pr, paths, ws, hopen, hselect, htangle, htree⟩
    · exact absurd (run_of_obstacle hi hobstacle).1 hchanged
    · refine ⟨pr, paths, ws, hopen, hselect, htangle, ?_⟩
      rcases tree_commit t p dryRun quiet ws with hsame | ⟨_, hexecuted⟩
      · exact absurd (htree.trans hsame) hchanged
      · exact htree.trans hexecuted

/-- The last file of the store refers to a section that is missing; the first one is not written
either. -/
theorem run_keeps_tree_last_file :
    let t : FileTree := ⟨[(["w".toList], .directory),
      (["w".toList, "d.md".toList], .file (.text
        "```js > a.js\na\n```\n```js > b.js\n<<x>>\n```\n".toList))]⟩
    let p : Session := ⟨["w".toList], 0⟩
    let i : Invocation := ⟨none, none, false, none, .tangle false false [] []⟩
    Obstacle t p i [] [] (.missingSection "b.js".toList (.named "x".toList)) ∧
      (run t p i).tree = t ∧ ∃ m, (run t p i).ending = .failed m := by
  intro t p i
  let pr : Project := ⟨.default, ⟨"/w".toList⟩, t.files p.cwd ⟨"/w".toList⟩⟩
  have hload : Settings.load t p.cwd ⟨"/w".toList⟩ = .ok .default := by decide +kernel
  have hopen : openProject t p i = .ok pr := by
    have hbase : p.cwd.path = ⟨"/w".toList⟩ := by decide
    simp only [openProject, i, Option.getD_none, hbase, hload]
    rfl
  have hselect : pr.select [] [] = .ok [⟨"d.md".toList⟩] := by decide +kernel
  have hobstacle : Obstacle t p i [] [] (.missingSection "b.js".toList (.named "x".toList)) := by
    refine .content hopen hselect ?_
    obtain ⟨s, hs, hname, hrender⟩ : ∃ s, pr.collect [⟨"d.md".toList⟩] = .ok s ∧
        "b.js".toList ∈ s.names ∧ pr.renderOutput s "b.js".toList =
          .error (.missingSection "b.js".toList (.named "x".toList)) :=
      ⟨(pr.collect [⟨"d.md".toList⟩]).toOption.getD (.empty .strict []), by decide +kernel,
        by decide +kernel, by decide +kernel⟩
    exact .file hs hname hrender
  exact ⟨hobstacle, ((run_keeps_tree t p i).2.2 false false [] [] rfl).2.1 _ hobstacle⟩

end Command

end Literate
