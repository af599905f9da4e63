import Literate.Project
import Literate.Proofs.RelativePaths
import Literate.Transaction

/-!
# Where source files come from

Every source file has been found by one of the source patterns: the components of the pattern lead
to a file, and the source file is that file as seen from the base directory.
-/

namespace Literate

namespace Path
variable {p q : Path} {ps : List Path}

theorem mem_of_mem_dedupAfter (h : p ∈ dedupAfter q ps) : p ∈ ps := by
  induction ps generalizing q with
  | nil => cases h
  | cons r ps ih =>
    unfold dedupAfter at h
    split at h
    · exact List.mem_cons_of_mem r (ih h)
    · rcases List.mem_cons.1 h with rfl | h
      · exact List.mem_cons_self
      · exact List.mem_cons_of_mem r (ih h)

theorem mem_of_mem_sortDistinct (h : p ∈ sortDistinct ps) : p ∈ ps := by
  have hsort : p ∈ sort ps := by
    unfold sortDistinct dedup at h
    split at h
    · cases h
    · rename_i q qs hqs
      rw [hqs]
      rcases List.mem_cons.1 h with rfl | h
      · exact List.mem_cons_self
      · exact List.mem_cons_of_mem q (mem_of_mem_dedupAfter h)
  exact List.mem_mergeSort.1 hsort

end Path

namespace Glob
variable {t : FileTree} {cwd : Place} {directoriesOnly : Bool} {ps : List Pattern} {path q : Path}

/-- The components lead from the first path to the second one. -/
inductive Reaches (t : FileTree) (cwd : Place) : List Pattern → Path → Path → Prop where
  | here (path : Path) : Reaches t cwd [] path path
  | literal {p : Pattern} {ps : List Pattern} {path q : Path} {name : Text}
      (hp : p.literal? = some name) (h : Reaches t cwd ps (entry path name) q) :
      Reaches t cwd (p :: ps) path q
  | child {p : Pattern} {ps : List Pattern} {path q : Path} {place : Place} {name : Text}
      (hp : p.literal? = none) (hrecursive : p.isRecursive = false)
      (hplace : t.locate cwd path = .ok place) (hname : name ∈ t.children place)
      (hmatch : p.matchesName (entry path name) = true)
      (h : Reaches t cwd ps (entry path name) q) : Reaches t cwd (p :: ps) path q
  | dot {p : Pattern} {ps : List Pattern} {path q : Path} {name : Text}
      (hp : p.literal? = none) (hrecursive : p.isRecursive = false)
      (hhead : p.tokens.head? = some (.char '.')) (hname : name = ['.'] ∨ name = ['.', '.'])
      (hmatch : p.matchesText name = true)
      (h : Reaches t cwd ps (path.join ⟨name⟩) q) : Reaches t cwd (p :: ps) path q
  | under {p r : Pattern} {ps : List Pattern} {path q : Path} {place names : Place}
      (hp : p.literal? = none) (hrecursive : p.isRecursive = true)
      (hplace : t.locate cwd path = .ok place) (hnames : names ∈ t.descendants place)
      (hmatch : r.matchesName (names.foldl entry path) = true)
      (h : Reaches t cwd ps (names.foldl entry path) q) : Reaches t cwd (p :: r :: ps) path q
  | directory {p : Pattern} {path : Path} {names : Place} (hp : p.literal? = none)
      (hdirectory : t.isDirectory cwd (names.foldl entry path) = true) :
      Reaches t cwd [p] path (names.foldl entry path)

theorem exists_of_mem_childPaths (h : q ∈ childPaths t cwd path) :
    ∃ place, t.locate cwd path = .ok place ∧ ∃ name ∈ t.children place, entry path name = q := by
  unfold childPaths at h
  split at h
  · rename_i place hplace
    exact ⟨place, hplace, List.mem_map.1 h⟩
  · cases h

theorem exists_of_mem_descendantPaths (h : q ∈ descendantPaths t cwd path) :
    ∃ place, t.locate cwd path = .ok place ∧
      ∃ names ∈ t.descendants place, names.foldl entry path = q := by
  unfold descendantPaths at h
  split at h
  · rename_i place hplace
    exact ⟨place, hplace, List.mem_map.1 h⟩
  · cases h

theorem exists_of_mem_dotPaths {p : Pattern} (h : q ∈ dotPaths p path) :
    p.tokens.head? = some (.char '.') ∧ ∃ name, (name = ['.'] ∨ name = ['.', '.']) ∧
      p.matchesText name = true ∧ path.join ⟨name⟩ = q := by
  unfold dotPaths at h
  split at h
  · rename_i hhead
    obtain ⟨name, hname, hq⟩ := List.mem_map.1 h
    obtain ⟨hmem, hmatch⟩ := List.mem_filter.1 hname
    exact ⟨hhead, name, by simpa using hmem, hmatch, hq⟩
  · cases h

theorem reaches_of_mem_follow (h : q ∈ follow t cwd directoriesOnly ps path) :
    Reaches t cwd ps path q := by
  -- After `**` two components are taken at once.
  induction hlength : ps.length using Nat.strong_induction_on generalizing ps path with
  | _ n ih =>
  subst hlength
  cases ps with
  | nil =>
    rw [follow] at h
    split at h
    · cases h
    · rw [List.mem_singleton.1 h]
      exact .here path
  | cons p ps =>
    unfold follow at h
    split at h
    · rename_i name hp
      obtain ⟨_, hq⟩ := List.mem_ite_nil_right.1 h
      exact .literal hp (ih ps.length (by simp) hq rfl)
    · rename_i hp
      split at h
      · cases h
      · split at h
        · rename_i hrecursive
          cases ps with
          | nil =>
            obtain ⟨hmem, hdirectory⟩ := List.mem_filter.1 h
            obtain ⟨place, _, names, _, rfl⟩ := exists_of_mem_descendantPaths hmem
            exact .directory hp hdirectory
          | cons r ps =>
            obtain ⟨next, hnext, hq⟩ := List.mem_flatMap.1 h
            obtain ⟨hmem, hmatch⟩ := List.mem_filter.1 hnext
            obtain ⟨place, hplace, names, hnames, rfl⟩ := exists_of_mem_descendantPaths hmem
            have hlt : ps.length < (p :: r :: ps).length := by
              simp only [List.length_cons]
              omega
            exact .under hp hrecursive hplace hnames hmatch (ih ps.length hlt hq rfl)
        · rename_i hrecursive
          obtain ⟨next, hnext, hq⟩ := List.mem_flatMap.1 h
          have hrest := ih ps.length (by simp) hq rfl
          rcases List.mem_append.1 hnext with hnext | hnext
          · obtain ⟨hmem, hmatch⟩ := List.mem_filter.1 hnext
            obtain ⟨place, hplace, name, hname, rfl⟩ := exists_of_mem_childPaths hmem
            exact .child hp (by simpa using hrecursive) hplace hname hmatch hrest
          · obtain ⟨hhead, name, hname, hmatch, rfl⟩ := exists_of_mem_dotPaths hnext
            exact .dot hp (by simpa using hrecursive) hhead hname hmatch hrest

theorem entry_of_isAbsolute (h : path.isAbsolute = true) (name : Text) :
    entry path name = path.join ⟨name⟩ := by
  rw [entry, if_neg]
  rw [Path.components_of_isAbsolute h]
  simp

theorem isAbsolute_entry (h : path.isAbsolute = true) (name : Text) :
    (entry path name).isAbsolute = true := by
  rw [entry_of_isAbsolute h]
  exact Path.isAbsolute_join_left h _

theorem isAbsolute_foldl_entry (h : path.isAbsolute = true) (names : List Text) :
    (names.foldl entry path).isAbsolute = true := by
  induction names generalizing path with
  | nil => exact h
  | cons name names ih => exact ih (isAbsolute_entry h name)

theorem Reaches.isAbsolute (h : Reaches t cwd ps path q) (hpath : path.isAbsolute = true) :
    q.isAbsolute = true := by
  induction h with
  | here => exact hpath
  | literal hp h ih => exact ih (isAbsolute_entry hpath _)
  | child hp hrecursive hplace hname hmatch h ih => exact ih (isAbsolute_entry hpath _)
  | dot hp hrecursive hhead hname hmatch h ih => exact ih (Path.isAbsolute_join_left hpath _)
  | under hp hrecursive hplace hnames hmatch h ih => exact ih (isAbsolute_foldl_entry hpath _)
  | directory hp hdirectory => exact isAbsolute_foldl_entry hpath _

/-- A route consists of the pattern as a whole, which has to be well formed, and of its pieces. -/
theorem Route.exists_of_read {source : Text} {r : Route} (h : Route.read source = .ok r) :
    ∃ whole pieces, Pattern.read source = .ok whole ∧
      (cutComponents (if source.head? = some '/' then source.drop 1 else source)).mapM
        Pattern.read = .ok pieces ∧
      r.isAbsolute = decide (source.head? = some '/') ∧ r.components = collapse pieces := by
  unfold Route.read at h
  cases hwhole : Pattern.read source with
  | error e =>
    rw [hwhole] at h
    cases h
  | ok whole =>
    rw [hwhole] at h
    simp only [bind, Except.bind] at h
    split at h
    · cases h
    · rename_i pieces hpieces
      cases h
      exact ⟨whole, pieces, rfl, hpieces, rfl, rfl⟩

end Glob

namespace FileTree
variable {t : FileTree} {cwd : Place} {base d : Path} {pattern : Text} {found : List Path}

/-- Below an absolute directory every match of a pattern is a file that the components of the
pattern lead to, starting from the root. -/
theorem exists_of_mem_glob (hbase : base.isAbsolute = true)
    (hfound : t.glob cwd base pattern = .ok found) (hd : d ∈ found) :
    ∃ route q, Glob.Route.read (base.join ⟨pattern⟩).text = .ok route ∧
      Glob.Reaches t cwd route.components ⟨['/']⟩ q ∧ t.isFile cwd q = true ∧
      Path.relativeTo base q = d := by
  unfold glob at hfound
  split at hfound
  · cases hfound
  · rename_i route hroute
    cases hfound
    obtain ⟨q, hq, hrelative⟩ := List.mem_map.1 (List.mem_mergeSort.1 hd)
    obtain ⟨hpaths, hfile⟩ := List.mem_filter.1 hq
    have hstart : route.isAbsolute = true := by
      obtain ⟨_, _, _, _, hisAbsolute, _⟩ := Glob.Route.exists_of_read hroute
      rw [hisAbsolute]
      exact Path.isAbsolute_join_left hbase _
    rw [Glob.Route.paths, if_pos hstart] at hpaths
    exact ⟨route, q, hroute, Glob.reaches_of_mem_follow hpaths, hfile, hrelative⟩

end FileTree

namespace Project
variable {pr : Project} {keep : Path → Bool} {patterns : List Text} {found docs : List Path}
  {d : Path}

/-- The project that a session finds on a tree. -/
def onTree (settings : Settings) (base : Path) (p : Session) (t : FileTree) : Project :=
  ⟨settings, base, t.files p.cwd base⟩

theorem exists_of_mem_matching (h : pr.matching keep patterns = .ok found) (hd : d ∈ found) :
    keep d = true ∧ ∃ pattern ∈ patterns, ∃ ps, pr.files.glob pattern = .ok ps ∧ d ∈ ps := by
  induction patterns generalizing found with
  | nil =>
    cases h
    cases hd
  | cons pattern patterns ih =>
    unfold matching globAccess at h
    split at h
    · cases h
    · rename_i ps hps
      split at hps
      · rename_i ps' hglob
        cases hps
        split at h
        · cases h
        · rename_i rest hrest
          cases h
          rcases List.mem_append.1 hd with hd | hd
          · obtain ⟨hmem, hkeep⟩ := List.mem_filter.1 hd
            exact ⟨hkeep, pattern, List.mem_cons_self, _, hglob, hmem⟩
          · obtain ⟨hkeep, pattern', hpattern', hfound⟩ := ih hrest hd
            exact ⟨hkeep, pattern', List.mem_cons_of_mem _ hpattern', hfound⟩
      · cases hps

theorem exists_of_mem_sourceFiles (h : pr.sourceFiles = .ok docs) (hd : d ∈ docs) :
    (∃ exclude, readPatterns pr.settings.exclude = .ok exclude ∧ isExcluded exclude d = false) ∧
      ∃ pattern ∈ pr.settings.sourcePatterns, ∃ ps, pr.files.glob pattern = .ok ps ∧ d ∈ ps := by
  unfold sourceFiles at h
  split at h
  · cases h
  · rename_i exclude hexclude
    split at h
    · cases h
    · rename_i found hfound
      cases h
      obtain ⟨hkeep, hpattern⟩ := exists_of_mem_matching hfound (Path.mem_of_mem_sortDistinct hd)
      exact ⟨⟨exclude, hexclude, by simpa using hkeep⟩, hpattern⟩

end Project

end Literate
