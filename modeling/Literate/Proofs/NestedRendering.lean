import Literate.Proofs.Splicing
import Literate.Proofs.TrailHistories
import Mathlib.Logic.Function.Iterate

/-!
# How deep renderings nest

While a section is rendered, the sections that it refers to are rendered inside it. All of them start
from the same trail, on which one more section of the file is under way. So the sections that are
left become fewer from level to level, and the recursion comes to an end whatever the sections refer
to.
-/

namespace Literate

namespace Marker
variable {σ ε : Type}

/-- The log changes nothing about the replacement. A filler that hands on its state is asked in that
same state each time. -/
theorem exists_replace_logged (fill : SectionName → σ → Except ε Text × σ) (t : Text) (s : σ)
    (log : List (SectionName × σ)) :
    ∃ asked, replace (logged fill) t (s, log) =
        ((replace fill t s).1, (replace fill t s).2, log ++ asked) ∧
      (Restores fill → ∀ c ∈ asked, c.2 = s) := by
  obtain ⟨gaps, sources, hcut, _⟩ := exists_cut_find t
  rcases answers_or_failure fill s ((find t).map Found.name) with
    ⟨us, s', hus⟩ | ⟨earlier, n, later, us, s₁, e, s', hns, hus, he⟩
  · obtain ⟨calls, hcalls, _, hstates⟩ := hus.exists_logged log
    refine ⟨calls, ?_, fun restores => (hstates restores).2⟩
    rw [hcut.replace_of_answers hcalls, hcut.replace_of_answers hus]
  · obtain ⟨calls, hcalls, _, hstates⟩ := hus.exists_logged log
    refine ⟨calls ++ [(n, s₁)], ?_, fun restores => ?_⟩
    · rw [hcut.replace_of_failure hns hcalls (logged_of_error he _),
        hcut.replace_of_failure hns hus he, List.append_assoc]
    · obtain ⟨hs, hcalls⟩ := hstates restores
      exact List.forall_mem_append.2 ⟨hcalls, List.forall_mem_singleton.2 hs⟩

end Marker

theorem exists_fillChunks_logged {σ : Type} (fill : SectionName → σ → Except Fault Text × σ)
    (chunks : List Text) (isFirst : Bool) (out : Text) (s : σ) (log : List (SectionName × σ)) :
    ∃ asked, fillChunks (Marker.logged fill) chunks isFirst out (s, log) =
        ((fillChunks fill chunks isFirst out s).1, (fillChunks fill chunks isFirst out s).2,
          log ++ asked) ∧
      (Marker.Restores fill → ∀ c ∈ asked, c.2 = s) := by
  induction chunks generalizing isFirst out s log with
  | nil => exact ⟨[], by simp [fillChunks], fun _ => by simp⟩
  | cons chunk chunks ih =>
    obtain ⟨first, hreplace, hfirst⟩ := Marker.exists_replace_logged fill chunk s log
    rcases hr : Marker.replace fill chunk s with ⟨e | u, after⟩
    · rw [hr] at hreplace
      exact ⟨first, by simp only [fillChunks, hreplace, hr], hfirst⟩
    · rw [hr] at hreplace
      obtain ⟨asked, hfill, hasked⟩ := ih false (appendChunk out u isFirst) after (log ++ first)
      refine ⟨first ++ asked, ?_, fun restores => List.forall_mem_append.2 ⟨hfirst restores, ?_⟩⟩
      · simp only [fillChunks, hreplace, hr, hfill, List.append_assoc]
      · rw [← ((Marker.replace_eq_ok_iff restores).1 hr).1]
        exact hasked restores

namespace CodeFile
variable {f : CodeFile} {n : SectionName} {t : Trail}

/-- One level of rendering, with `call` for the sections inside. -/
def renderStep (f : CodeFile) (call : SectionName → Trail → Except Fault Text × Trail)
    (n : SectionName) (t : Trail) : Except Fault Text × Trail :=
  match t.enter n with
  | .error e => (.error e, t)
  | .ok inside =>
    match f.section? n with
    | none => (.error (.missingSection f.name n), inside)
    | some s => Trail.finish (fillChunks call s.chunks true [] inside)

/-- The renderings that are started inside, in order, each with the trail that it starts from. -/
def nestedCalls (f : CodeFile) (n : SectionName) (t : Trail) : List (SectionName × Trail) :=
  match t.enter n, f.section? n with
  | .ok inside, some s =>
    (fillChunks (Marker.logged f.renderSection) s.chunks true [] (inside, [])).2.2
  | _, _ => []

/-- The first rendering starts the second one. -/
def Nests (f : CodeFile) (c c' : SectionName × Trail) : Prop :=
  c' ∈ f.nestedCalls c.1 c.2

instance (f : CodeFile) : DecidableRel f.Nests :=
  fun c c' => inferInstanceAs (Decidable (c' ∈ f.nestedCalls c.1 c.2))

/-- The number of sections of the file that are not on the stack. -/
def left (f : CodeFile) (t : Trail) : Nat :=
  (f.sections.filter fun s => s.name ∉ t.stack).length

theorem left_eq (ht : t.IsConsistent) : f.left t = (f.fresh t).length := by
  simp only [left, fresh, ht.mem_seen_iff]

theorem left_inside_lt {s : Section} (ht : t.IsConsistent) (hn : n ∉ t.seen)
    (hs : f.section? n = some s) : f.left (t.inside n) < f.left t := by
  rw [left_eq ht, left_eq (ht.inside hn)]
  exact fresh_inside_lt hn hs

section Step
variable {call : SectionName → Trail → Except Fault Text × Trail}

theorem renderStep_of_mem (hn : n ∈ t.seen) :
    f.renderStep call n t = (.error (.cycle t.file (t.stack ++ [n])), t) := by
  simp only [renderStep, Trail.enter_of_mem hn]

theorem renderStep_of_none (hn : n ∉ t.seen) (hs : f.section? n = none) :
    f.renderStep call n t = (.error (.missingSection f.name n), t.inside n) := by
  simp only [renderStep, Trail.enter_of_not_mem hn, hs]

theorem renderStep_of_some {s : Section} (hn : n ∉ t.seen) (hs : f.section? n = some s) :
    f.renderStep call n t = Trail.finish (fillChunks call s.chunks true [] (t.inside n)) := by
  simp only [renderStep, Trail.enter_of_not_mem hn, hs]

/-- A level is rendered right if all that is inside is. -/
theorem renderStep_eq_renderSection
    (hcall : ∀ s, n ∉ t.seen → f.section? n = some s → ∀ m,
      call m (t.inside n) = f.renderSection m (t.inside n)) :
    f.renderStep call n t = f.renderSection n t := by
  by_cases hn : n ∈ t.seen
  · rw [renderStep_of_mem hn, renderSection_of_mem hn]
  cases hs : f.section? n with
  | none => rw [renderStep_of_none hn hs, renderSection_of_none hn hs]
  | some s =>
    rw [renderStep_of_some hn hs, renderSection_of_some hn hs]
    congr 1
    symm
    exact fillChunks_congr renderSection_restores fun m _ => (hcall s hn hs m).symm

/-- As many levels as there are sections left, and one more for a name that is refused: what is
below them does not matter. -/
theorem iterate_renderStep {k : Nat} (hk : (f.fresh t).length < k) :
    f.renderStep^[k] call n t = f.renderSection n t := by
  induction k generalizing n t with
  | zero => omega
  | succ k ih =>
    rw [Function.iterate_succ_apply']
    apply renderStep_eq_renderSection
    intro s hn hs m
    have hlt := fresh_inside_lt hn hs
    exact ih (by omega)

end Step

theorem of_mem_nestedCalls {c : SectionName × Trail} (h : c ∈ f.nestedCalls n t) :
    n ∉ t.seen ∧ (∃ s, f.section? n = some s) ∧ c.2 = t.inside n := by
  by_cases hn : n ∈ t.seen
  · simp [nestedCalls, Trail.enter_of_mem hn] at h
  cases hs : f.section? n with
  | none => simp [nestedCalls, hs] at h
  | some s =>
    simp only [nestedCalls, Trail.enter_of_not_mem hn, hs] at h
    obtain ⟨asked, hfill, hasked⟩ :=
      exists_fillChunks_logged f.renderSection s.chunks true [] (t.inside n) []
    rw [hfill] at h
    exact ⟨hn, ⟨s, rfl⟩, hasked renderSection_restores c h⟩

section Chains
variable {cs : List (SectionName × Trail)}

/-- Renderings inside each other run on consistent trails, and each takes one of the sections that
are left. -/
theorem of_isChain_nests (ht : t.IsConsistent) (h : ((n, t) :: cs).IsChain f.Nests) :
    cs.length ≤ f.left t ∧ ∀ c ∈ (n, t) :: cs, c.2.IsConsistent := by
  induction cs generalizing n t with
  | nil => exact ⟨Nat.zero_le _, List.forall_mem_singleton.2 ht⟩
  | cons c cs ih =>
    obtain ⟨hnests, hrest⟩ := List.isChain_cons_cons.1 h
    obtain ⟨hn, ⟨s, hs⟩, htrail⟩ := of_mem_nestedCalls hnests
    obtain ⟨m, _⟩ := c
    obtain rfl := htrail
    obtain ⟨hlength, hall⟩ := ih (ht.inside hn) hrest
    -- the rendering that starts `m` has found its section, which is no longer left inside
    have hlt := left_inside_lt ht hn hs
    refine ⟨?_, List.forall_mem_cons.2 ⟨ht, hall⟩⟩
    rw [List.length_cons]
    omega

end Chains

/-- Rendering a section on a trail, however that has been used, comes to an end. It is the recursion
of its one step, and unfolded once more than there are sections left this gives the result with
anything at all below. Renderings that are started inside each other are at most that many: where
one finds its section, fewer are left inside, and all that it starts have the same trail. -/
theorem nesting_le_left (file : Text) (ms : List Trail.Move) (f : CodeFile) (n : SectionName) :
    let t := (Trail.start file).run ms
    f.renderStep f.renderSection n t = f.renderSection n t ∧
      (∀ call, f.renderStep^[f.left t + 1] call n t = f.renderSection n t) ∧
      ∀ cs, ((n, t) :: cs).IsChain f.Nests →
        ((n, t) :: cs).length ≤ f.left t + 1 ∧
        ∀ c ∈ (n, t) :: cs, ∀ inside s, c.2.enter c.1 = .ok inside → f.section? c.1 = some s →
          f.left inside < f.left c.2 ∧ ∀ c' ∈ f.nestedCalls c.1 c.2, c'.2 = inside := by
  intro t
  have ht : t.IsConsistent := (Trail.isConsistent_start file).run ms
  refine ⟨renderStep_eq_renderSection fun _ _ _ _ => rfl, fun call => ?_, fun cs hcs => ?_⟩
  · apply iterate_renderStep
    rw [left_eq ht]
    exact Nat.lt_succ_self _
  · obtain ⟨hlength, hall⟩ := of_isChain_nests ht hcs
    refine ⟨Nat.succ_le_succ hlength, fun c hc inside s henter hs => ?_⟩
    by_cases hn : c.1 ∈ c.2.seen
    · rw [Trail.enter_of_mem hn] at henter
      cases henter
    · rw [Trail.enter_of_not_mem hn] at henter
      cases henter
      exact ⟨left_inside_lt (hall c hc) hn hs, fun c' hc' => (of_mem_nestedCalls hc').2.2⟩

/-- Three sections, of which two refer to each other, are left on a trail that holds another name:
the fourth rendering inside each other is the one that is refused. -/
theorem nesting_le_left_cycle :
    let a : SectionName := .named ['a']
    let b : SectionName := .named ['b']
    let f : CodeFile := ⟨['f'], [⟨.root, ['f'], ["<<a>>".toList], [a]⟩,
      ⟨a, ['f'], ["1".toList, "<<b>>".toList], [b]⟩, ⟨b, ['f'], ["<<#a>>".toList], [a]⟩]⟩
    let t := (Trail.start ['f']).run [.enter (.named ['x'])]
    let cs := [(a, t.inside .root), (b, (t.inside .root).inside a),
      (a, ((t.inside .root).inside a).inside b)]
    f.left t = 3 ∧ ((.root, t) :: cs).IsChain f.Nests ∧ ((.root, t) :: cs).length ≤ f.left t + 1 ∧
      f.renderStep^[4] (fun _ t => (.ok [], t)) .root t = f.renderSection .root t := by
  intro a b f t cs
  have hleft : f.left t = 3 := by decide +kernel
  have hchain : ((.root, t) :: cs).IsChain f.Nests := by decide +kernel
  obtain ⟨_, hunfold, hnest⟩ := nesting_le_left ['f'] [.enter (.named ['x'])] f .root
  exact ⟨hleft, hchain, (hnest cs hchain).1, hunfold _⟩

end CodeFile

end Literate
