import Literate.Proofs.PathOrder

/-!
# Source files selected by name

A name is first seen from the base directory and then looked up among the source files. What is seen
from the base directory is the rest of the name if the name starts with the components of the base
directory, even where it is meant to be seen from there already. So a source file answers to its own
path exactly if its path does not start with the base directory, which is always so if the base
directory has a root and the path has none.
-/

namespace Literate

namespace Path
variable {p base : Path}

theorem sortDistinct_nil : sortDistinct [] = [] := by
  rw [sortDistinct, sort, List.mergeSort_nil]
  rfl

theorem sortDistinct_singleton (p : Path) : sortDistinct [p] = [p] := by
  rw [sortDistinct, sort, List.mergeSort_singleton]
  rfl

/-- A path without a root does not start with a directory that has one. -/
theorem not_isPrefix_of_isAbsolute (hbase : base.isAbsolute = true) (hp : p.isAbsolute = false) :
    ¬ base.components <+: p.components := by
  intro hinit
  apply root_not_mem_components hp
  apply hinit.subset
  rw [components_of_isAbsolute hbase]
  exact List.mem_cons_self

end Path

namespace Project
variable {pr : Project} {all : List Path} {p : Path}

theorem selectFiles_eq_map (h : pr.sourceFiles = .ok all) (paths : List Path) :
    pr.selectFiles paths = (pr.known all paths).map Path.sortDistinct := by
  rw [selectFiles, h]
  dsimp only
  cases pr.known all paths <;> rfl

theorem selectFiles_singleton (h : pr.sourceFiles = .ok all) (p : Path) :
    pr.selectFiles [p] =
      if (Path.relativeTo pr.base p).isIn all then .ok [Path.relativeTo pr.base p]
      else .error (.settings (.notASource p)) := by
  rw [selectFiles_eq_map h]
  by_cases hin : (Path.relativeTo pr.base p).isIn all = true
  · simp only [known, if_pos hin, Except.map, Path.sortDistinct_singleton]
  · simp only [known, if_neg hin, Except.map]

/-- A source file is selected by its own path exactly if the base directory is empty or the path does
not start with it. Otherwise the rest of the path is looked up in its place: another source file is
selected, or none. -/
theorem selectFiles_own_path (h : pr.sourceFiles = .ok all) (hp : p ∈ all) :
    ((∃ q, pr.selectFiles [p] = .ok [q] ∧ q.same p = true) ↔
        pr.base.text = [] ∨ ¬ pr.base.components <+: p.components) ∧
      (pr.base.isAbsolute = true → p.isAbsolute = false → pr.selectFiles [p] = .ok [p]) ∧
      (pr.base.text ≠ [] → pr.base.components <+: p.components →
        ∃ q, p.components = pr.base.components ++ q.components ∧
          pr.selectFiles [p] =
            if q.isIn all then .ok [q] else .error (.settings (.notASource p))) := by
  have hsingle := selectFiles_singleton h p
  have hother : ¬ pr.base.components <+: p.components → pr.selectFiles [p] = .ok [p] := by
    intro hinit
    rw [hsingle, Path.relativeTo_of_not_isPrefix hinit, if_pos (Path.isIn_of_mem hp)]
  have hbelow : pr.base.text ≠ [] → pr.base.components <+: p.components →
      ∃ q, p.components = pr.base.components ++ q.components ∧ pr.selectFiles [p] =
        if q.isIn all then .ok [q] else .error (.settings (.notASource p)) := by
    intro hne hinit
    obtain ⟨q, hq, _, hsteps, hcomponents⟩ := Path.exists_stripBase? hinit hne
    refine ⟨q, by rw [hcomponents, hsteps], ?_⟩
    rw [hsingle, Path.relativeTo, hq, Option.getD_some]
  refine ⟨⟨fun hown => ?_, fun hbase => ?_⟩, fun hbase hrel => ?_, hbelow⟩
  · by_contra hbase
    rw [not_or, not_not] at hbase
    obtain ⟨r, hr, hselect⟩ := hbelow hbase.1 hbase.2
    obtain ⟨q, hq, hsame⟩ := hown
    rw [hq] at hselect
    split at hselect
    · -- the rest of the path has fewer components than the path
      cases hselect
      rw [Path.same, decide_eq_true_iff] at hsame
      rw [hsame, List.self_eq_append_left, Path.components_eq_nil_iff] at hr
      exact hbase.1 hr
    · cases hselect
  · by_cases hinit : pr.base.components <+: p.components
    · have hnil := hbase.resolve_right (not_not.2 hinit)
      have hsame : (Path.relativeTo pr.base p).same p = true := by
        rw [Path.same, decide_eq_true_iff]
        exact Path.components_relativeTo_nil hnil
      exact ⟨_, by rw [hsingle, if_pos (Path.isIn_iff.2 ⟨p, hp, hsame⟩)], hsame⟩
    · exact ⟨p, hother hinit, Path.same_refl p⟩
  · exact hother (Path.not_isPrefix_of_isAbsolute hbase hrel)

/-- The text of the path starts with that of the base directory, but its components do not. -/
theorem selectFiles_own_path_beside :
    let p : Path := ⟨"docs/a.md".toList⟩
    let pr : Project := ⟨.default, ⟨"doc".toList⟩, (MemoryFiles.empty.insert p []).files⟩
    pr.sourceFiles = .ok [p] ∧ ∃ q, pr.selectFiles [p] = .ok [q] ∧ q.same p = true := by
  intro p pr
  have hsources : pr.sourceFiles = .ok [p] := by decide +kernel
  have hinit : ¬ pr.base.components <+: p.components := by decide +kernel
  exact ⟨hsources, (selectFiles_own_path hsources (List.mem_singleton_self p)).1.2 (.inr hinit)⟩

/-- A source file in a directory that has the name of the base directory is not found. -/
theorem selectFiles_own_path_missed :
    let p : Path := ⟨"docs/a.md".toList⟩
    let pr : Project := ⟨.default, ⟨"docs".toList⟩, (MemoryFiles.empty.insert p []).files⟩
    pr.sourceFiles = .ok [p] ∧ pr.selectFiles [p] = .error (.settings (.notASource p)) := by
  intro p pr
  exact ⟨by decide +kernel, by decide +kernel⟩

end Project

end Literate
