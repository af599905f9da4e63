import Literate.Proofs.Filling

/-!
# Rendering without its budget

The budget of `renderWithin` only makes the recursion visible: from the number of sections that may
still be entered on, every budget gives the same result. What remains are three equations for
`renderSection` (a section under way, an unknown one, one that is found) and an induction principle
that enters one section at a time. A section that renders leaves the trail as it was.
-/

namespace Literate

namespace Trail

def inside (t : Trail) (n : SectionName) : Trail :=
  { t with stack := t.stack ++ [n], seen := n :: t.seen }

@[simp] theorem inside_file (t : Trail) (n : SectionName) : (t.inside n).file = t.file := rfl

@[simp] theorem inside_stack (t : Trail) (n : SectionName) :
    (t.inside n).stack = t.stack ++ [n] := rfl

@[simp] theorem inside_seen (t : Trail) (n : SectionName) : (t.inside n).seen = n :: t.seen := rfl

theorem enter_of_mem {t : Trail} {n : SectionName} (h : n ∈ t.seen) :
    t.enter n = .error (.cycle t.file (t.stack ++ [n])) := by
  simp [enter, h]

theorem enter_of_not_mem {t : Trail} {n : SectionName} (h : n ∉ t.seen) :
    t.enter n = .ok (t.inside n) := by
  simp [enter, h, inside]

theorem exit_inside (t : Trail) (n : SectionName) : (t.inside n).exit = t := by
  simp [exit, inside]

/-- Leaves the section entered last, unless there was a failure inside. -/
def finish : Except Fault Text × Trail → Except Fault Text × Trail
  | (.ok text, after) => (.ok text, after.exit)
  | (.error e, after) => (.error e, after)

theorem finish_eq_ok_iff {r : Except Fault Text × Trail} {t : Trail} {u : Text} :
    finish r = (.ok u, t) ↔ ∃ after, r = (.ok u, after) ∧ t = after.exit := by
  obtain ⟨_ | text, after⟩ := r
  · simp [finish]
  · simp [finish, and_assoc, eq_comm]

theorem finish_eq_error_iff {r : Except Fault Text × Trail} {t : Trail} {e : Fault} :
    finish r = (.error e, t) ↔ r = (.error e, t) := by
  obtain ⟨_ | text, after⟩ := r <;> simp [finish]

end Trail

namespace CodeFile
variable {f : CodeFile} {n : SectionName} {trail : Trail}

theorem name_of_section? {s : Section} (h : f.section? n = some s) : s ∈ f.sections ∧ s.name = n := by
  refine ⟨List.mem_of_find?_eq_some h, ?_⟩
  simpa using List.find?_some h

theorem fresh_inside_lt {s : Section} (hn : n ∉ trail.seen) (hs : f.section? n = some s) :
    (f.fresh (trail.inside n)).length < (f.fresh trail).length := by
  obtain ⟨hmem, hname⟩ := name_of_section? hs
  have hsub : f.fresh (trail.inside n) = (f.fresh trail).filter fun s => s.name ≠ n := by
    unfold fresh
    rw [List.filter_filter]
    congr 1
    funext s
    simp
  rw [hsub]
  apply List.length_filter_lt_length_iff_exists.2
  refine ⟨s, ?_, by simp [hname]⟩
  simpa [fresh, hname] using ⟨hmem, hn⟩

section Budget
variable {budget budget' : Nat}

theorem renderWithin_of_mem (h : n ∈ trail.seen) :
    f.renderWithin budget n trail =
      (.error (.cycle trail.file (trail.stack ++ [n])), trail) := by
  rw [renderWithin, Trail.enter_of_mem h]

theorem renderWithin_of_none (hn : n ∉ trail.seen) (hs : f.section? n = none) :
    f.renderWithin budget n trail =
      (.error (.missingSection f.name n), trail.inside n) := by
  cases budget <;> simp only [renderWithin, Trail.enter_of_not_mem hn, hs]

theorem renderWithin_zero (hn : n ∉ trail.seen) :
    f.renderWithin 0 n trail =
      (.error (.missingSection f.name n), trail.inside n) := by
  simp only [renderWithin, Trail.enter_of_not_mem hn]

theorem renderWithin_succ {s : Section} (hn : n ∉ trail.seen) (hs : f.section? n = some s) :
    f.renderWithin (budget + 1) n trail =
      Trail.finish (fillChunks (f.renderWithin budget) s.chunks true [] (trail.inside n)) := by
  simp only [renderWithin, Trail.enter_of_not_mem hn, hs]
  rcases fillChunks (f.renderWithin budget) s.chunks true [] (trail.inside n) with ⟨_ | _, after⟩
  · rfl
  · rfl

theorem renderWithin_restores : Marker.Restores (f.renderWithin budget) := by
  induction budget with
  | zero =>
    intro n trail u trail' h
    by_cases hn : n ∈ trail.seen
    · rw [renderWithin_of_mem hn] at h
      cases h
    · rw [renderWithin_zero hn] at h
      cases h
  | succ budget ih =>
    intro n trail u trail' h
    by_cases hn : n ∈ trail.seen
    · rw [renderWithin_of_mem hn] at h
      cases h
    cases hs : f.section? n with
    | none =>
      rw [renderWithin_of_none hn hs] at h
      cases h
    | some s =>
      rw [renderWithin_succ hn hs, Trail.finish_eq_ok_iff] at h
      obtain ⟨after, hfill, rfl⟩ := h
      obtain ⟨rfl, _⟩ := (fillChunks_eq_ok_iff ih).1 hfill
      exact Trail.exit_inside trail n

/-- All budgets that allow for every section still to be entered give the same result. -/
theorem renderWithin_stable (h : (f.fresh trail).length ≤ budget)
    (h' : (f.fresh trail).length ≤ budget') :
    f.renderWithin budget n trail = f.renderWithin budget' n trail := by
  induction budget using Nat.strongRec generalizing budget' n trail with
  | ind budget ih =>
    by_cases hn : n ∈ trail.seen
    · rw [renderWithin_of_mem hn, renderWithin_of_mem hn]
    cases hs : f.section? n with
    | none => rw [renderWithin_of_none hn hs, renderWithin_of_none hn hs]
    | some s =>
      -- a section that is found uses up one unit of both budgets
      have hlt := fresh_inside_lt hn hs
      obtain ⟨k, rfl⟩ : ∃ k, budget = k + 1 := Nat.exists_eq_add_one.2 (by omega)
      obtain ⟨k', rfl⟩ : ∃ k', budget' = k' + 1 := Nat.exists_eq_add_one.2 (by omega)
      have hagree : ∀ m ∈ s.chunks.flatMap Marker.names,
          f.renderWithin k m (trail.inside n) = f.renderWithin k' m (trail.inside n) := by
        intro m _
        exact ih k (by omega) (by omega) (by omega)
      rw [renderWithin_succ hn hs, renderWithin_succ hn hs,
        fillChunks_congr renderWithin_restores hagree]

end Budget

theorem renderSection_restores : Marker.Restores f.renderSection := by
  intro n trail u trail' h
  exact renderWithin_restores n trail u trail' h

theorem renderSection_of_mem (hn : n ∈ trail.seen) :
    f.renderSection n trail = (.error (.cycle trail.file (trail.stack ++ [n])), trail) :=
  renderWithin_of_mem hn

theorem renderSection_of_none (hn : n ∉ trail.seen) (hs : f.section? n = none) :
    f.renderSection n trail = (.error (.missingSection f.name n), trail.inside n) :=
  renderWithin_of_none hn hs

theorem renderSection_of_some {s : Section} (hn : n ∉ trail.seen) (hs : f.section? n = some s) :
    f.renderSection n trail =
      Trail.finish (fillChunks f.renderSection s.chunks true [] (trail.inside n)) := by
  have hlt := fresh_inside_lt hn hs
  obtain ⟨k, hk⟩ : ∃ k, (f.fresh trail).length = k + 1 := Nat.exists_eq_add_one.2 (by omega)
  have hagree : ∀ m ∈ s.chunks.flatMap Marker.names,
      f.renderWithin k m (trail.inside n) = f.renderSection m (trail.inside n) := by
    intro m _
    exact renderWithin_stable (by omega) (Nat.le_refl _)
  rw [renderSection, hk, renderWithin_succ hn hs, fillChunks_congr renderWithin_restores hagree]

/-- Induction along the nesting of sections: there are only finitely many to enter. -/
theorem render_induction {P : SectionName → Trail → Prop}
    (underWay : ∀ n trail, n ∈ trail.seen → P n trail)
    (unknown : ∀ n trail, n ∉ trail.seen → f.section? n = none → P n trail)
    (found : ∀ n trail s, n ∉ trail.seen → f.section? n = some s →
      (∀ m, P m (trail.inside n)) → P n trail)
    (n : SectionName) (trail : Trail) : P n trail := by
  induction hlen : (f.fresh trail).length using Nat.strongRec generalizing n trail with
  | ind len ih =>
    by_cases hn : n ∈ trail.seen
    · exact underWay n trail hn
    cases hs : f.section? n with
    | none => exact unknown n trail hn hs
    | some s =>
      refine found n trail s hn hs fun m => ?_
      exact ih _ (hlen ▸ fresh_inside_lt hn hs) m (trail.inside n) rfl

theorem render_eq_ok_iff {t : Text} :
    f.render = .ok t ↔ f.renderSection .root (.start f.name) = (.ok t, .start f.name) := by
  constructor
  · intro h
    have hrun : f.renderSection .root (.start f.name) =
        (.ok t, (f.renderSection .root (.start f.name)).2) := by
      rw [← h]
      rfl
    have hsame := renderSection_restores _ _ _ _ hrun
    rwa [hsame] at hrun
  · intro h
    rw [render, h]

theorem render_eq_error_iff {e : Fault} :
    f.render = .error e ↔ ∃ after, f.renderSection .root (.start f.name) = (.error e, after) := by
  constructor
  · intro h
    refine ⟨(f.renderSection .root (.start f.name)).2, ?_⟩
    rw [← h]
    rfl
  · intro hrun
    obtain ⟨after, h⟩ := hrun
    rw [render, h]

end CodeFile

end Literate
