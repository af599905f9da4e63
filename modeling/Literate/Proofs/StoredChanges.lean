import Literate.Proofs.StoredSources
import Literate.Watch

/-!
# Changes of files in memory

Source files are found with the patterns of the settings, and the filter of changes has read the
same patterns a second time, together with those that only exclude changes. Over a table in memory
the two agree: the change of a stored file is relevant exactly if the file is a source file that no
further pattern excludes.
-/

namespace Literate.WatchFilter
variable {settings : Settings} {base : Path} {m : MemoryFiles}

/-- The filter that the settings describe judges a path by what is seen of it from the base
directory. -/
theorem exists_ofSettings (hpatterns : settings.ReadablePatterns)
    (hwatch : ∀ x ∈ settings.watch.exclude, Glob.IsPattern x) :
    ∃ f, ofSettings settings = .ok f ∧
      ∀ base p : Path, f.isRelevant base p = true ↔
        settings.IsSource (Path.relativeTo base p) ∧
          ∀ x ∈ settings.watch.exclude, ¬ Glob.MatchesComponents x (Path.relativeTo base p) := by
  have hall : ∀ x ∈ settings.exclude ++ settings.watch.exclude, Glob.IsPattern x :=
    List.forall_mem_append.2 ⟨hpatterns.exclude, hwatch⟩
  obtain ⟨exclude, hexclude, hexcluded⟩ := Project.exists_readPatterns hall
  obtain ⟨sources, hsources, hmatched⟩ := Project.exists_readPatterns hpatterns.sources
  refine ⟨⟨sources, exclude⟩, by simp only [ofSettings, hexclude, hsources], fun base p => ?_⟩
  rw [isRelevant, Bool.and_eq_true, Bool.not_eq_true', Bool.eq_false_iff, Ne, hmatched, hexcluded]
  have hkept : (¬ ∃ x ∈ settings.exclude ++ settings.watch.exclude,
      Glob.MatchesComponents x (Path.relativeTo base p)) ↔
      (∀ x ∈ settings.exclude, ¬ Glob.MatchesComponents x (Path.relativeTo base p)) ∧
        ∀ x ∈ settings.watch.exclude, ¬ Glob.MatchesComponents x (Path.relativeTo base p) := by
    rw [← List.forall_mem_append]
    simp only [not_exists, not_and]
  exact (and_congr_right fun _ => hkept).trans and_assoc.symm

/-- A change is relevant for what is seen of its path from the base directory. For a stored path that
starts and ends with a component this is the path itself, and the change is relevant exactly if the
path is a source file and no further pattern excludes it. -/
theorem isRelevant_inMemory (hm : m.IsBuilt) (hbase : base.isAbsolute = true)
    (hpatterns : settings.ReadablePatterns)
    (hwatch : ∀ x ∈ settings.watch.exclude, Glob.IsPattern x) :
    ∃ f found, ofSettings settings = .ok f ∧
      (Project.inMemory settings base m).sourceFiles = .ok found ∧
      (∀ p, f.isRelevant base p = true ↔ settings.IsSource (Path.relativeTo base p) ∧
        ∀ x ∈ settings.watch.exclude, ¬ Glob.MatchesComponents x (Path.relativeTo base p)) ∧
      ∀ p ∈ m.paths, p.Shows → (f.isRelevant base (base.join p) = true ↔
        p ∈ found ∧ ∀ x ∈ settings.watch.exclude, ¬ Glob.MatchesComponents x p) := by
  obtain ⟨f, hf, hrelevant⟩ := exists_ofSettings hpatterns hwatch
  obtain ⟨found, hfound, _, hmem⟩ := Project.exists_sourceFiles hm base hpatterns
  refine ⟨f, found, hf, hfound, hrelevant base, fun p hp hshows => ?_⟩
  rw [hrelevant, Path.relativeTo_join rfl hbase hshows, hmem, and_iff_right hp]

/-- Both files are source files, and only one of them is watched. -/
theorem isRelevant_inMemory_drafts :
    let base : Path := ⟨"/w".toList⟩
    let start : Path := ⟨"a.md".toList⟩
    let draft : Path := ⟨"drafts/b.md".toList⟩
    let m := (MemoryFiles.empty.insert draft []).insert start []
    let settings : Settings := { Settings.default with
      watch := { Settings.default.watch with exclude := ["drafts/*".toList] } }
    ∃ f found, ofSettings settings = .ok f ∧
      (Project.inMemory settings base m).sourceFiles = .ok found ∧ start ∈ found ∧ draft ∈ found ∧
      f.isRelevant base (base.join start) = true ∧ ¬ f.isRelevant base (base.join draft) = true := by
  intro base start draft m settings
  have hm : m.IsBuilt := .insert (.insert .empty draft []) start []
  have hpatterns : settings.ReadablePatterns := ⟨by decide +kernel, by decide +kernel⟩
  obtain ⟨f, found, hf, hfound, _, hstored⟩ :=
    isRelevant_inMemory hm (by decide +kernel : base.isAbsolute = true) hpatterns (by decide +kernel)
  obtain ⟨found', hfound', _, hmem⟩ := Project.exists_sourceFiles hm base hpatterns
  cases hfound.symm.trans hfound'
  have hstart : start ∈ found := (hmem start).2 ⟨by decide +kernel, by decide +kernel⟩
  have hdraft : draft ∈ found := (hmem draft).2 ⟨by decide +kernel, by decide +kernel⟩
  refine ⟨f, found, hf, hfound, hstart, hdraft, ?_, ?_⟩
  · rw [hstored start ((hmem start).1 hstart).1 ⟨by decide +kernel, by decide +kernel, by decide +kernel⟩]
    exact ⟨hstart, by decide +kernel⟩
  · rw [hstored draft ((hmem draft).1 hdraft).1 ⟨by decide +kernel, by decide +kernel, by decide +kernel⟩]
    intro h
    exact h.2 "drafts/*".toList (List.mem_singleton_self _) (by decide +kernel)

end Literate.WatchFilter
