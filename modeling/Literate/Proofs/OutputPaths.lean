import Literate.Tangling
import Literate.Proofs.Grouping
import Literate.Proofs.PathComponents
import Literate.Proofs.Sequences

/-!
# Where generated files are written

A store has one file for each name, and the name is a text. The path that a file is written to
follows from the components of its name, so that two names may well be spellings of one path. They
are not if all names are plain: relative, and without empty pieces or `.` between their separators.
-/

namespace Literate

def Component.spelling : Component → Text
  | root => []
  | current => ['.']
  | parent => ['.', '.']
  | normal name => name

namespace Path
variable {dir name name' : Path}

/-- The components of the path that a name stands for in a directory. Repeated separators do not
show in components, and inside of a directory neither does `.`. -/
def target (dir name : Path) : List Component :=
  if name.isAbsolute ∨ dir.text = [] then name.components
  else dir.components ++ name.components.filter (· ≠ .current)

/-- Every piece between the separators stands for a component. -/
def IsPlain (p : Path) : Prop :=
  ∀ s ∈ p.pieces, s ≠ [] ∧ s ≠ ['.']

instance (p : Path) : Decidable p.IsPlain :=
  inferInstanceAs (Decidable (∀ s ∈ p.pieces, s ≠ [] ∧ s ≠ ['.']))

theorem current_not_mem_ofPieces (ss : List Text) : Component.current ∉ ofPieces false ss := by
  induction ss with
  | nil => exact List.not_mem_nil
  | cons s ss ih =>
    have hs : Component.ofPiece? false s ≠ some .current := by
      rcases piece_cases s with rfl | rfl | rfl | hs
      · simp
      · simp
      · simp
      · simp [Component.ofPiece?_of_isProper false hs]
    simp [ofPieces, ih, hs]

theorem filter_ofPieces (leading : Bool) (ss : List Text) :
    (ofPieces leading ss).filter (· ≠ .current) = ofPieces false ss := by
  cases ss with
  | nil => rfl
  | cons s ss =>
    have hrest : (ofPieces false ss).filter (· ≠ .current) = ofPieces false ss := by
      apply List.filter_eq_self.2
      intro c hc
      have hne : c ≠ .current := fun h => current_not_mem_ofPieces ss (h ▸ hc)
      simpa using hne
    rw [ofPieces, ofPieces, List.filter_append, hrest]
    congr 1
    rcases piece_cases s with rfl | rfl | rfl | hs
    · rfl
    · cases leading <;> rfl
    · rfl
    · rw [Component.ofPiece?_of_isProper leading hs, Component.ofPiece?_of_isProper false hs]
      rfl

theorem filter_components (h : name.isAbsolute = false) :
    name.components.filter (· ≠ .current) = name.steps := by
  rw [components_of_relative h, filter_ofPieces, steps]

theorem components_join_eq_target (dir name : Path) :
    (dir.join name).components = target dir name := by
  rw [target]
  by_cases hname : name.isAbsolute
  · rw [if_pos (.inl hname), join_of_isAbsolute hname]
  · by_cases hdir : dir.text = []
    · rw [if_pos (.inr hdir), join_of_text_nil hdir]
    · rw [Bool.not_eq_true] at hname
      rw [if_neg (by simp [hname, hdir]), components_join hname hdir, filter_components hname]

theorem map_spelling_ofPieces {ss : List Text} (h : ∀ s ∈ ss, s ≠ [] ∧ s ≠ ['.']) :
    (ofPieces false ss).map Component.spelling = ss := by
  induction ss with
  | nil => rfl
  | cons s ss ih =>
    obtain ⟨⟨hnil, hdot⟩, hrest⟩ := List.forall_mem_cons.1 h
    rw [ofPieces, List.map_append, ih hrest]
    rcases piece_cases s with hs | hs | rfl | hs
    · exact absurd hs hnil
    · exact absurd hs hdot
    · rfl
    · rw [Component.ofPiece?_of_isProper false hs]
      rfl

theorem IsPlain.isAbsolute (h : IsPlain name) : name.isAbsolute = false := by
  by_contra habs
  obtain ⟨cs, htext⟩ := exists_text_of_isAbsolute (by simpa using habs)
  have hmem : [] ∈ name.pieces := by simp [pieces, htext, Text.splitOn]
  exact (h [] hmem).1 rfl

theorem IsPlain.eq_of_steps (h : IsPlain name) (h' : IsPlain name')
    (hsteps : name.steps = name'.steps) : name = name' := by
  have hpieces : name.pieces = name'.pieces := by
    rw [← map_spelling_ofPieces h, ← map_spelling_ofPieces h', ← steps, hsteps, steps]
  apply Path.ext
  have htext := congrArg ['/'].intercalate hpieces
  rwa [pieces, pieces, Text.splitOn_eq, Text.splitOn_eq, List.intercalate_splitOn,
    List.intercalate_splitOn] at htext

theorem IsPlain.eq_of_target (h : IsPlain name) (h' : IsPlain name')
    (htarget : target dir name = target dir name') : name = name' := by
  apply h.eq_of_steps h'
  rw [← filter_components h.isAbsolute, ← filter_components h'.isAbsolute]
  by_cases hdir : dir.text = []
  · rw [target, target, if_pos (.inr hdir), if_pos (.inr hdir)] at htarget
    rw [htarget]
  · rw [target, target, if_neg (by simp [h.isAbsolute, hdir]),
      if_neg (by simp [h'.isAbsolute, hdir])] at htarget
    exact List.append_cancel_left htarget

end Path

namespace Project
variable {pr : Project}

/-- The directory that names of generated files are seen from. -/
def outputDirectory (pr : Project) : Path :=
  match pr.settings.outputDir with
  | some dir => pr.base.join dir
  | none => pr.base

theorem resolve_eq_join (base p : Path) : resolve base p = base.join p := by
  rw [resolve]
  split
  · rename_i habs
    rw [Path.join_of_isAbsolute habs]
  · rfl

theorem outputPath_eq_join (pr : Project) (name : Text) :
    pr.outputPath name = pr.outputDirectory.join ⟨name⟩ := by
  cases hdir : pr.settings.outputDir with
  | some dir => simp only [outputPath, outputDirectory, hdir, resolve_eq_join, Path.join_assoc]
  | none => simp only [outputPath, outputDirectory, hdir, resolve_eq_join]

theorem same_outputPath_iff (pr : Project) (n m : Text) :
    (pr.outputPath n).same (pr.outputPath m) = true ↔
      pr.outputDirectory.target ⟨n⟩ = pr.outputDirectory.target ⟨m⟩ := by
  rw [Path.same, decide_eq_true_iff, outputPath_eq_join, outputPath_eq_join,
    Path.components_join_eq_target, Path.components_join_eq_target]

theorem queueNames_eq_mapM (pr : Project) (s : Store) (names : List Text) :
    pr.queueNames s names =
      names.mapM fun name => (pr.renderOutput s name).map (Write.mk (pr.outputPath name)) := by
  induction names with
  | nil => rfl
  | cons name names ih =>
    rw [queueNames, List.mapM_cons, ← ih]
    cases pr.renderOutput s name with
    | error e => rfl
    | ok t => cases pr.queueNames s names <;> rfl

theorem map_path_of_queueNames {s : Store} {names : List Text} {ws : Transaction}
    (h : pr.queueNames s names = .ok ws) : ws.map Write.path = names.map pr.outputPath := by
  rw [queueNames_eq_mapM, mapM_eq_ok_iff] at h
  symm
  apply map_eq_map_of_forall₂
  apply h.imp
  intro name w hw
  obtain ⟨content, _, rfl⟩ := map_eq_ok_iff.1 hw
  rfl

/-- The writes of a store are one for each of its names, which are all different. Two of them have
the same path exactly when their names stand for the same components in the output directory; plain
names never do. -/
theorem queue_targets (pr : Project) (policy : Policy) (file : Text) (calls : List Call)
    {ws : Transaction} (h : pr.queue ((Store.empty policy file).run calls) = .ok ws) :
    let names := ((Store.empty policy file).run calls).names
    names.Nodup ∧ ws.map Write.path = names.map pr.outputPath ∧
      (∀ n m, (pr.outputPath n).same (pr.outputPath m) = true ↔
        pr.outputDirectory.target ⟨n⟩ = pr.outputDirectory.target ⟨m⟩) ∧
      ((∀ n ∈ names, Path.IsPlain ⟨n⟩) →
        ws.Pairwise fun w w' => w.path.same w'.path = false) := by
  intro names
  have hnodup : names.Nodup := by
    have hrun := Store.run_empty policy file calls
    simp only [names, hrun]
    exact Store.nodup_names_grouping
  have hpaths := map_path_of_queueNames h
  refine ⟨hnodup, hpaths, pr.same_outputPath_iff, fun hplain => ?_⟩
  have hdistinct : (names.map pr.outputPath).Pairwise fun p q => p.same q = false := by
    rw [List.pairwise_map]
    apply hnodup.imp_of_mem
    intro n m hn hm hne
    rw [Bool.eq_false_iff]
    intro hsame
    have heq := (hplain n hn).eq_of_target (hplain m hm) ((pr.same_outputPath_iff n m).1 hsame)
    exact hne (Path.mk.inj heq)
  rw [← hpaths] at hdistinct
  exact List.pairwise_map.1 hdistinct

/-- Names with the same last piece in different directories, one of them above the output
directory. -/
theorem queue_targets_apart :
    let pr : Project := ⟨{ Settings.default with outputDir := some ⟨"gen/".toList⟩ },
      ⟨"/project".toList⟩, MemoryFiles.empty.files⟩
    let calls : List Call := [.register (some "a.js".toList), .register (some "../a.js".toList),
      .add ⟨some "js > lib/a.js".toList, "x".toList, none⟩]
    ∃ ws, pr.queue ((Store.empty .autoCreate defaultFile).run calls) = .ok ws ∧ ws.length = 3 ∧
      ws.Pairwise fun w w' => w.path.same w'.path = false := by
  intro pr calls
  obtain ⟨ws, hws, hlength⟩ : ∃ ws,
      pr.queue ((Store.empty .autoCreate defaultFile).run calls) = .ok ws ∧ ws.length = 3 :=
    ⟨[⟨⟨"/project/gen/a.js".toList⟩, ['\n']⟩, ⟨⟨"/project/gen/../a.js".toList⟩, ['\n']⟩,
      ⟨⟨"/project/gen/lib/a.js".toList⟩, ['x', '\n']⟩], by decide +kernel, rfl⟩
  have hplain : ∀ n ∈ ((Store.empty .autoCreate defaultFile).run calls).names,
      Path.IsPlain ⟨n⟩ := by
    decide +kernel
  obtain ⟨_, _, _, hdistinct⟩ := queue_targets pr .autoCreate defaultFile calls hws
  exact ⟨ws, hws, hlength, hdistinct hplain⟩

/-- Two files of a store, one of which overwrites the other. -/
theorem queue_shared_target :
    let pr : Project := ⟨.default, ⟨"/project".toList⟩, MemoryFiles.empty.files⟩
    let calls : List Call := [.add ⟨some "js > a.js".toList, "first".toList, none⟩,
      .add ⟨some "js > ./a.js".toList, "second".toList, none⟩]
    ∃ w w', pr.queue ((Store.empty .autoCreate defaultFile).run calls) = .ok [w, w'] ∧
      w.path.same w'.path = true ∧ w.content ≠ w'.content :=
  ⟨⟨⟨"/project/a.js".toList⟩, "first\n".toList⟩, ⟨⟨"/project/./a.js".toList⟩, "second\n".toList⟩,
    by decide +kernel, by decide +kernel, by decide +kernel⟩

end Project

end Literate
