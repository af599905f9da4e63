import Literate.Command.Run
import Literate.Proofs.Walking

/-!
# The directories that are searched for a configuration

The search follows the spelling of a directory: it looks into every place that the components of the
path lead to, the last one first, and does not go above the place where the path starts. A run in
the directory itself looks into all directories above it. The two agree for an absolute path without
`..`, but not in general.
-/

namespace Literate

namespace Place
variable {start d : Place} {names : List Text} {cs : List Component} {β : Type}

/-- The place itself and all above it, the nearest first. -/
def ancestors (place : Place) : List Place :=
  place.inits.reverse

/-- Where components lead one after the other, the last place first. -/
def visited (start : Place) (cs : List Component) : List Place :=
  (cs.inits.map fun ds => ds.foldl Component.follow start).reverse

theorem visited_cons (start : Place) (c : Component) (cs : List Component) :
    visited start (c :: cs) = visited (c.follow start) cs ++ [start] := by
  simp [visited, Function.comp_def]

theorem exists_visited_eq (start : Place) (cs : List Component) :
    ∃ ds, visited start cs = ds ++ [start] := by
  cases cs with
  | nil => exact ⟨[], rfl⟩
  | cons c cs => exact ⟨_, visited_cons start c cs⟩

theorem exists_ancestors_eq (place : Place) : ∃ above, ancestors place = place :: above := by
  obtain ⟨init, hinit⟩ := List.getLast?_eq_some_iff.1 (Path.getLast?_inits place)
  exact ⟨init.reverse, by rw [ancestors, hinit, List.reverse_concat]⟩

theorem findSome?_visited_append (g : Place → Option β) (start : Place) (cs : List Component) :
    (visited start cs ++ [start]).findSome? g = (visited start cs).findSome? g := by
  obtain ⟨ds, hds⟩ := exists_visited_eq start cs
  rw [hds, List.findSome?_append, List.findSome?_append, Option.or_assoc, Option.or_self]

theorem visited_map_normal (start names : Place) :
    visited start (names.map .normal) = (names.inits.map (start ++ ·)).reverse := by
  rw [visited, List.map_inits, List.map_map]
  congr 1
  exact List.map_congr_left fun ns _ => FileTree.foldl_follow_map_normal start ns

theorem mem_visited_map_normal :
    d ∈ visited start (names.map .normal) ↔ start <+: d ∧ d <+: start ++ names := by
  rw [visited_map_normal, List.mem_reverse, List.mem_map]
  constructor
  · rintro ⟨ns, hns, rfl⟩
    exact ⟨List.prefix_append start ns,
      (List.prefix_append_right_inj start).2 ((List.mem_inits ns names).1 hns)⟩
  · rintro ⟨⟨ns, rfl⟩, hd⟩
    exact ⟨ns, (List.mem_inits ns names).2 ((List.prefix_append_right_inj start).1 hd), rfl⟩

/-- Above the start of a path that only goes down, the search through all ancestors goes on. -/
theorem findSome?_ancestors_append (g : Place → Option β) (start names : Place) :
    (ancestors (start ++ names)).findSome? g =
      ((visited start (names.map .normal)).findSome? g).or ((ancestors start).findSome? g) := by
  have hsplit : ancestors (start ++ names) =
      (names.inits.tail.map (start ++ ·)).reverse ++ ancestors start := by
    rw [ancestors, List.inits_append, List.reverse_append]
    rfl
  have hvisited : visited start (names.map .normal) =
      (names.inits.tail.map (start ++ ·)).reverse ++ [start] := by
    rw [visited_map_normal, Path.inits_eq_cons names, List.map_cons, List.reverse_cons,
      List.append_nil, List.tail_cons]
  have hstart : (ancestors start).findSome? g = (g start).or ((ancestors start).findSome? g) := by
    obtain ⟨above, habove⟩ := exists_ancestors_eq start
    rw [habove, List.findSome?_cons]
    cases g start <;> rfl
  rw [hsplit, hvisited, List.findSome?_append, List.findSome?_append, Option.or_assoc, hstart]
  congr 1
  cases hg : g start <;> simp [hg]

end Place

/-- The places of the ancestors of a path are those that its steps lead to. -/
theorem Path.findSome?_ancestors {β : Type} (g : Place → Option β) (cwd : Place) (p : Path) :
    (p.ancestors.map (FileTree.destination cwd)).findSome? g =
      (Place.visited (FileTree.startPlace cwd p) p.steps).findSome? g := by
  have hmap : p.ancestors.map (FileTree.destination cwd) =
      (p.ancestors.map components).map fun cs => cs.foldl Component.follow cwd := by
    rw [List.map_map]
    exact List.map_congr_left fun q _ => (FileTree.foldl_components cwd q).symm
  rw [hmap, map_components_ancestors, FileTree.startPlace]
  cases habs : p.isAbsolute with
  | true =>
    rw [components_of_isAbsolute habs]
    simp [Place.visited, Function.comp_def, Component.follow]
  | false =>
    rcases components_eq_or_cons habs with hcs | hcs
    · rw [hcs]
      simp [Place.visited]
    · -- A leading `.` makes the search look into the start twice.
      rw [hcs, ← Place.findSome?_visited_append]
      simp [Place.visited, Function.comp_def, Component.follow]

namespace Settings
variable {t : FileTree} {cwd place : Place} {p q dir : Path} {name : Text} {node : Node}

/-- What stands under the first name of a configuration file in the directory. -/
def configAt? (t : FileTree) (dir : Place) : Option Node :=
  fileNames.findSome? fun name => t.get? (dir ++ [name])

def ofNode : Node → Except Fault Settings
  | .directory => .error (.access .isDirectory)
  | .file (.binary _) => .error (.access .notText)
  | .file (.text s) => (Update.read s).map fun u => u.mergeInto .default

/-- The settings by the first of the directories that has a configuration. -/
def ofNearest (t : FileTree) (dirs : List Place) : Except Fault Settings :=
  ((dirs.findSome? (configAt? t)).map ofNode).getD (.ok .default)

/-- The path leaves room for the name of a configuration file. -/
def HasRoom (p : Path) : Prop :=
  ∀ name ∈ fileNames, Text.byteLength p.text + 1 + Text.byteLength name ≤ FileTree.pathLimit

instance (p : Path) : Decidable (HasRoom p) :=
  inferInstanceAs (Decidable (∀ name ∈ fileNames, _))

theorem isName_of_mem_fileNames (h : name ∈ fileNames) : FileTree.IsName name := by
  rw [fileNames, List.mem_cons, List.mem_singleton] at h
  rcases h with rfl | rfl
  · exact ⟨by decide, by decide, by decide, by decide⟩
  · exact ⟨by decide, by decide, by decide, by decide⟩

theorem HasRoom.of_prefix (h : HasRoom p) (hinit : q.text <+: p.text) : HasRoom q := by
  intro name hname
  obtain ⟨rest, hrest⟩ := hinit
  have hroom := h name hname
  rw [← hrest, Text.byteLength_append] at hroom
  omega

theorem HasRoom.length_le (h : HasRoom p) : Text.byteLength p.text ≤ FileTree.pathLimit := by
  have := h _ List.mem_cons_self
  omega

theorem loadFile_of_node? (h : t.node? cwd p = .ok node) : loadFile t cwd p = ofNode node := by
  rw [loadFile, FileTree.readText, h]
  cases node with
  | directory => rfl
  | file content =>
    cases content with
    | text s =>
      rw [ofNode]
      cases hread : Update.read s <;> simp [Except.map, hread]
    | binary bytes => rfl

theorem refuse?_join (hnul : q.text.any (·.toNat = 0) = false) (hroom : HasRoom q)
    (hname : name ∈ fileNames) : FileTree.refuse? (q.join ⟨name⟩) = none := by
  have hlength := hroom name hname
  have hn := isName_of_mem_fileNames hname
  have hslash : Char.utf8Size '/' = 1 := by decide
  rw [FileTree.refuse?_eq_none_iff, Path.join,
    if_neg (by simp [Path.isAbsolute_of_not_mem hn.no_slash])]
  split
  · refine ⟨by rw [List.any_append, hnul, hn.no_nul]; rfl, by simp [hn.proper.1], ?_⟩
    simp only [Text.byteLength_append]
    omega
  · refine ⟨by rw [List.any_append, List.any_cons, hnul, hn.no_nul]; rfl, by simp, ?_⟩
    simp only [Text.byteLength_append, Text.byteLength_cons, hslash]
    omega

/-- Looking for a configuration file by path comes to looking for an entry of the directory. -/
theorem map_loadFile_fileIn? (hpasses : t.Passes (FileTree.startPlace cwd q) q.steps)
    (hnul : q.text.any (·.toNat = 0) = false) (hroom : HasRoom q) :
    (fileIn? t cwd q).map (loadFile t cwd) =
      (configAt? t (FileTree.destination cwd q)).map ofNode := by
  have hnames : ∀ names ⊆ fileNames,
      ((names.map fun name => q.join ⟨name⟩).find? (t.has cwd)).map (loadFile t cwd) =
        (names.findSome? fun name => t.get? (FileTree.destination cwd q ++ [name])).map ofNode := by
    intro names hsub
    induction names with
    | nil => rfl
    | cons name names ih =>
      have hmem := hsub List.mem_cons_self
      have hnode := FileTree.node?_join (isName_of_mem_fileNames hmem) hpasses
        (refuse?_join hnul hroom hmem)
      rw [List.map_cons, List.find?_cons, List.findSome?_cons, FileTree.has]
      cases hget : t.get? (FileTree.destination cwd q ++ [name]) with
      | none =>
        rw [hget] at hnode
        simp only [hnode, Option.elim]
        exact ih fun m hm => hsub (List.mem_cons_of_mem _ hm)
      | some node =>
        rw [hget] at hnode
        simp only [hnode, Option.elim, Option.map_some, loadFile_of_node? hnode]
  exact hnames fileNames (List.Subset.refl _)

/-- The settings of a directory are those of the nearest place that its path leads to and that has a
configuration. -/
theorem load_eq_ofNearest (hcwd : t.get? cwd = some .directory)
    (henter : t.enter cwd dir = .ok place) (hroom : HasRoom dir) :
    load t cwd dir =
      ofNearest t (Place.visited (FileTree.startPlace cwd dir) dir.steps) := by
  obtain ⟨hrefuse, hpasses, _⟩ := FileTree.enter_eq_ok_iff.1 henter
  have hnul := (FileTree.refuse?_eq_none_iff.1 hrefuse).1
  have hfile : ∀ q ∈ dir.ancestors, (fileIn? t cwd q).map (loadFile t cwd) =
      (configAt? t (FileTree.destination cwd q)).map ofNode := by
    intro q hq
    have hinit := Path.text_prefix_of_mem_ancestors hq
    have hqnul : q.text.any (·.toNat = 0) = false := by
      rw [List.any_eq_false] at hnul ⊢
      exact fun c hc => hnul c (hinit.subset hc)
    exact map_loadFile_fileIn? (FileTree.passes_of_mem_ancestors hcwd hpasses hq) hqnul
      (hroom.of_prefix hinit)
  have hdirs : (findFile? t cwd dir).map (loadFile t cwd) =
      ((dir.ancestors.map (FileTree.destination cwd)).findSome? (configAt? t)).map ofNode := by
    have hfirst := congrArg (List.findSome? id) (List.map_congr_left hfile)
    rw [List.findSome?_map, List.findSome?_map] at hfirst
    rw [findFile?, List.map_findSome?, List.findSome?_map, List.map_findSome?]
    exact hfirst
  rw [ofNearest, ← Path.findSome?_ancestors, ← hdirs, load]
  cases findFile? t cwd dir <;> rfl

/-- Going down from the start, the search misses only what stands above the start. -/
theorem ofNearest_visited_eq {start names : Place}
    (h : (∃ d, start <+: d ∧ d <+: start ++ names ∧ configAt? t d ≠ none) ∨
      ∀ d, d <+: start → d ≠ start → configAt? t d = none) :
    ofNearest t (Place.visited start (names.map .normal)) =
      ofNearest t (Place.ancestors (start ++ names)) := by
  rw [ofNearest, ofNearest, Place.findSome?_ancestors_append]
  cases hnone : (Place.visited start (names.map .normal)).findSome? (configAt? t) with
  | some node => rfl
  | none =>
    -- The start has been searched on the way, so only places strictly above it are left.
    rw [List.findSome?_eq_none_iff] at hnone
    have habove : (Place.ancestors start).findSome? (configAt? t) = none := by
      rw [List.findSome?_eq_none_iff]
      intro d hd
      rw [Place.ancestors, List.mem_reverse, List.mem_inits] at hd
      rcases h with ⟨e, hstart, hend, he⟩ | habove
      · exact absurd (hnone e (Place.mem_visited_map_normal.2 ⟨hstart, hend⟩)) he
      · by_cases heq : d = start
        · rw [heq]
          exact hnone start (Place.mem_visited_map_normal.2
            ⟨List.prefix_refl _, List.prefix_append start names⟩)
        · exact habove d hd heq
    rw [habove]
    rfl

/-- Under its full path, a directory has the settings of the nearest one above it. -/
theorem load_path (hplace : t.IsEntered place) (hcwd : t.get? cwd = some .directory)
    (hroom : HasRoom place.path) : load t cwd place.path = ofNearest t place.ancestors := by
  have hroot : ∀ d : Place, d <+: [] → d ≠ [] → configAt? t d = none :=
    fun d hd hne => absurd (List.prefix_nil.1 hd) hne
  rw [load_eq_ofNearest hcwd (hplace.enter_path hroom.length_le cwd) hroom,
    FileTree.startPlace, if_pos (FileTree.isAbsolute_path place),
    FileTree.steps_path hplace.names]
  exact ofNearest_visited_eq (.inr hroot)

end Settings

namespace Command
variable {t : FileTree} {w dir : Path} {args : List Text} {id : Nat} {p : Session} {i : Invocation}
  {place : Place}

/-- The settings under the policy of the command line. -/
def Invocation.adjust (i : Invocation) (s : Settings) : Settings :=
  { s with policy := i.policy.getD s.policy }

theorem map_settings_openProject (hconfig : i.config = none) :
    (openProject t p i).map Project.settings =
      (Settings.load t p.cwd (i.directory.getD p.cwd.path)).map i.adjust := by
  rw [openProject, hconfig]
  cases Settings.load t p.cwd (i.directory.getD p.cwd.path) <;> rfl

theorem startIn_eq_ok_iff :
    startIn t w args id = .ok p ↔
      (∀ s ∈ w.text :: args, s.any (·.toNat = 0) = false) ∧ t.enter [] w = .ok p.cwd ∧
        p.id = id := by
  rw [startIn]
  split
  · rename_i hnul
    obtain ⟨s, hs, hnul⟩ := List.any_eq_true.1 hnul
    simp only [reduceCtorEq, false_iff]
    exact fun h => absurd (h.1 s hs) (by simp [hnul])
  · rename_i hnul
    rw [Bool.not_eq_true, List.any_eq_false] at hnul
    have hargs : ∀ s ∈ w.text :: args, s.any (·.toNat = 0) = false :=
      fun s hs => by simpa using hnul s hs
    obtain ⟨cwd, number⟩ := p
    cases t.enter [] w with
    | error e => simp [Except.map]
    | ok place =>
      simp only [Except.map, Except.ok.injEq, Session.mk.injEq]
      exact ⟨fun h => ⟨hargs, h.1, h.2.symm⟩, fun h => ⟨h.2.1, h.2.2.symm⟩⟩

/-- With a directory on the command line the configuration is searched along the spelling of its
path, in a run in that directory among all directories above it. Without `..` the two find the same
if the path is absolute, if the search ends at or below the working directory, or if there is
nothing to find above it. -/
theorem settings_of_directory (hp : startIn t w args id = .ok p)
    (hdir : i.directory = some dir) (hconfig : i.config = none)
    (henter : t.enter p.cwd dir = .ok place) (hroom : Settings.HasRoom dir)
    (hplace : Settings.HasRoom place.path) :
    startIn t place.path args id = .ok ⟨place, id⟩ ∧
    (openProject t p i).map Project.settings =
      (Settings.ofNearest t
        (Place.visited (FileTree.startPlace p.cwd dir) dir.steps)).map i.adjust ∧
    (openProject t ⟨place, id⟩ { i with directory := none }).map Project.settings =
      (Settings.ofNearest t place.ancestors).map i.adjust ∧
    (.parent ∉ dir.components →
      (dir.isAbsolute = true ∨
        (∃ d, p.cwd <+: d ∧ d <+: place ∧ Settings.configAt? t d ≠ none) ∨
        ∀ d, d <+: p.cwd → d ≠ p.cwd → Settings.configAt? t d = none) →
      (openProject t p i).map Project.settings =
        (openProject t ⟨place, id⟩ { i with directory := none }).map Project.settings) := by
  obtain ⟨hargs, hcwd, _⟩ := startIn_eq_ok_iff.1 hp
  have hcwd := FileTree.isEntered_of_enter (FileTree.isEntered_nil t) hcwd
  have hentered := FileTree.isEntered_of_enter hcwd henter
  have hspelled : (openProject t p i).map Project.settings =
      (Settings.ofNearest t
        (Place.visited (FileTree.startPlace p.cwd dir) dir.steps)).map i.adjust := by
    rw [map_settings_openProject hconfig, hdir, Option.getD_some,
      Settings.load_eq_ofNearest (hcwd.directories _ (List.prefix_refl _)) henter hroom]
  have hthere : (openProject t ⟨place, id⟩ { i with directory := none }).map Project.settings =
      (Settings.ofNearest t place.ancestors).map i.adjust := by
    have hconfig : ({ i with directory := none } : Invocation).config = none := hconfig
    rw [map_settings_openProject hconfig, Option.getD_none,
      Settings.load_path hentered (hentered.directories _ (List.prefix_refl _)) hplace]
    rfl
  refine ⟨?_, hspelled, hthere, ?_⟩
  · have hback := hentered.enter_path hplace.length_le []
    have hrefuse := (FileTree.enter_eq_ok_iff.1 hback).1
    refine startIn_eq_ok_iff.2 ⟨?_, hback, rfl⟩
    refine List.forall_mem_cons.2 ⟨(FileTree.refuse?_eq_none_iff.1 hrefuse).1, ?_⟩
    exact fun s hs => hargs s (List.mem_cons_of_mem _ hs)
  · intro hdown hwhere
    obtain ⟨names, hnames⟩ := Path.exists_names_of_parent_not_mem
      fun h => hdown (dir.steps_subset_components h)
    have hend : place = FileTree.startPlace p.cwd dir ++ names := by
      rw [← (FileTree.enter_eq_ok_iff.1 henter).2.2, FileTree.destination, Path.steps, hnames,
        FileTree.foldl_follow_map_normal]
    rw [hspelled, hthere, Path.steps, hnames, hend]
    refine congrArg _ (Settings.ofNearest_visited_eq ?_)
    rw [← hend, FileTree.startPlace]
    split
    · right
      exact fun d hd hne => absurd (List.prefix_nil.1 hd) hne
    · rename_i hrelative
      exact hwhere.resolve_left hrelative

theorem settings_of_directory_below :
    let t : FileTree := ⟨[(["w".toList], .directory), (["w".toList, "sub".toList], .directory),
      (["w".toList, "mdtangle.toml".toList], .file (.text "default_filename = \"x.js\"".toList))]⟩
    let i : Invocation := ⟨none, some ⟨"sub".toList⟩, false, none, .list false⟩
    startIn t ⟨"/w".toList⟩ [] 0 = .ok ⟨["w".toList], 0⟩ ∧
    t.enter ["w".toList] ⟨"sub".toList⟩ = .ok ["w".toList, "sub".toList] ∧
    (openProject t ⟨["w".toList], 0⟩ i).map Project.settings =
      (openProject t ⟨["w".toList, "sub".toList], 0⟩ { i with directory := none }).map
        Project.settings ∧
    (openProject t ⟨["w".toList], 0⟩ i).map Project.settings =
      .ok { Settings.default with defaultFile := "x.js".toList } := by
  intro t i
  have hstart : startIn t ⟨"/w".toList⟩ [] 0 = .ok ⟨["w".toList], 0⟩ := by decide +kernel
  have henter : t.enter ["w".toList] ⟨"sub".toList⟩ = .ok ["w".toList, "sub".toList] := by
    decide +kernel
  have hconfig : Settings.configAt? t ["w".toList] ≠ none := by decide +kernel
  refine ⟨hstart, henter, ?_, by decide +kernel⟩
  exact (settings_of_directory hstart rfl rfl henter (by decide +kernel) (by decide +kernel)).2.2.2
    (by decide +kernel)
    (.inr (.inl ⟨["w".toList], List.prefix_refl _, List.prefix_append _ _, hconfig⟩))

/-- The configuration above the working directory is missed. -/
theorem settings_of_directory_missed :
    let t : FileTree := ⟨[(["w".toList], .directory), (["w".toList, "sub".toList], .directory),
      (["mdtangle.toml".toList], .file (.text "default_filename = \"x.js\"".toList))]⟩
    let i : Invocation := ⟨none, some ⟨"sub".toList⟩, false, none, .list false⟩
    startIn t ⟨"/w".toList⟩ [] 0 = .ok ⟨["w".toList], 0⟩ ∧
    startIn t ⟨"/w/sub".toList⟩ [] 0 = .ok ⟨["w".toList, "sub".toList], 0⟩ ∧
    t.enter ["w".toList] ⟨"sub".toList⟩ = .ok ["w".toList, "sub".toList] ∧
    (openProject t ⟨["w".toList], 0⟩ i).map Project.settings = .ok .default ∧
    (openProject t ⟨["w".toList, "sub".toList], 0⟩ { i with directory := none }).map
      Project.settings = .ok { Settings.default with defaultFile := "x.js".toList } := by
  decide +kernel

end Command

end Literate
