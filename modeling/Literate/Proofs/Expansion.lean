import Literate.Proofs.Rendering
import Mathlib.Logic.Relation

/-!
# Expansions

`Expand f n t` is the text of a section as a finite derivation, with no trail and no order of work.
Rendering a file succeeds with a text exactly when the text is the expansion of its root. So the
trail refuses nothing that has a finite expansion: no section can occur inside its own.
-/

namespace Literate

namespace CodeFile

open Relation

/-- `t` is the text of section `n`: each marker in its chunks is replaced by a text of the section
that it names, inserted texts are not looked at again, and the chunks are joined. -/
inductive Expand (f : CodeFile) : SectionName → Text → Prop where
  | intro {n : SectionName} {s : Section} {es : List Text} (found : f.section? n = some s)
      (filled : List.Forall₂ (Marker.Filled (Expand f)) s.chunks es) : Expand f n (joinChunks es)

/-- Section `a` has a marker for section `b`. -/
def Refers (f : CodeFile) (a b : SectionName) : Prop :=
  ∃ s, f.section? a = some s ∧ b ∈ s.markers

variable {f : CodeFile} {n : SectionName} {t : Text}

/-- Induction over an expansion: what holds of all inserted texts holds of the whole. -/
theorem Expand.induction {P : SectionName → Text → Prop}
    (step : ∀ {n s es}, f.section? n = some s →
      List.Forall₂ (Marker.Filled fun m v => f.Expand m v ∧ P m v) s.chunks es →
      P n (joinChunks es))
    (h : f.Expand n t) : P n t := by
  refine @Expand.rec f (fun n t _ => P n t)
    (fun chunks es _ => List.Forall₂ (Marker.Filled fun m v => f.Expand m v ∧ P m v) chunks es)
    (fun t u _ => Marker.Filled (fun m v => f.Expand m v ∧ P m v) t u) ?_ ?_ ?_ ?_ ?_ ?_ n t h
  · intro n s es found _ ih
    exact step found ih
  · exact .nil
  · intro chunk e chunks es _ _ ih ihs
    exact .cons ih ihs
  · exact .nil
  · intro c cs u plain _ ih
    exact .char plain ih
  · intro m cs v u n spells inserted _ ihv ih
    exact .marker spells ⟨inserted, ihv⟩ ih

theorem expand_iff {s : Section} (hs : f.section? n = some s) :
    f.Expand n t ↔
      ∃ es, List.Forall₂ (Marker.Filled f.Expand) s.chunks es ∧ t = joinChunks es := by
  constructor
  · intro h
    cases h with
    | intro found filled =>
      cases hs.symm.trans found
      exact ⟨_, filled, rfl⟩
  · intro hexp
    obtain ⟨es, filled, rfl⟩ := hexp
    exact .intro hs filled

theorem Expand.exists_of_refers {m : SectionName} (h : f.Expand n t) (hr : f.Refers n m) :
    ∃ v, f.Expand m v := by
  obtain ⟨s, hs, hm⟩ := hr
  obtain ⟨es, filled, _⟩ := (expand_iff hs).1 h
  exact exists_of_forall₂_filled filled m hm

theorem Expand.exists_of_reaches {m : SectionName} (h : f.Expand n t)
    (hr : ReflTransGen f.Refers n m) : ∃ v, f.Expand m v := by
  induction hr with
  | refl => exact ⟨t, h⟩
  | tail _ hstep ih =>
    obtain ⟨v, hv⟩ := ih
    exact hv.exists_of_refers hstep

/-- A finite expansion reaches no section that reaches itself. -/
theorem Expand.acyclic (h : f.Expand n t) :
    ∀ m, ReflTransGen f.Refers n m → ¬ TransGen f.Refers m m := by
  refine Expand.induction (P := fun n _ => ∀ m, ReflTransGen f.Refers n m →
    ¬ TransGen f.Refers m m) ?_ h
  intro n s es hs filled m hr
  have below : ∀ k, f.Refers n k → ∀ m, ReflTransGen f.Refers k m →
      ¬ TransGen f.Refers m m := by
    intro k hstep
    obtain ⟨s', hs', hk⟩ := hstep
    cases hs.symm.trans hs'
    obtain ⟨v, _, ih⟩ := exists_of_forall₂_filled filled k hk
    exact ih
  rcases ReflTransGen.cases_head hr with rfl | ⟨k, hk, hkm⟩
  · -- a cycle through `n` itself passes through one of its markers
    intro hcycle
    obtain ⟨k, hk, hkn⟩ := TransGen.head'_iff.1 hcycle
    exact below k hk n hkn hcycle
  · exact below k hk m hkm

section Trails
variable {trail trail' : Trail} {u : Text}

theorem renderSection_found_eq_ok_iff {s : Section} (hn : n ∉ trail.seen)
    (hs : f.section? n = some s) :
    f.renderSection n trail = (.ok u, trail') ↔
      trail' = trail ∧ ∃ es, List.Forall₂
        (Marker.Filled fun m v => f.renderSection m (trail.inside n) = (.ok v, trail.inside n))
        s.chunks es ∧ u = joinChunks es := by
  rw [renderSection_of_some hn hs, Trail.finish_eq_ok_iff]
  constructor
  · intro hrun
    obtain ⟨after, hfill, rfl⟩ := hrun
    obtain ⟨rfl, es, hes, he⟩ := (fillChunks_eq_ok_iff renderSection_restores).1 hfill
    exact ⟨Trail.exit_inside trail n, es, hes, he⟩
  · intro hexp
    obtain ⟨rfl, es, hes, he⟩ := hexp
    have hfill := (fillChunks_eq_ok_iff renderSection_restores).2 ⟨rfl, es, hes, he⟩
    exact ⟨_, hfill, (Trail.exit_inside _ n).symm⟩

/-- Rendering a section under a trail succeeds with exactly its expansion, provided that nothing
it reaches is under way. -/
theorem renderSection_eq_ok_iff :
    f.renderSection n trail = (.ok u, trail') ↔
      trail' = trail ∧ f.Expand n u ∧ ∀ m, ReflTransGen f.Refers n m → m ∉ trail.seen := by
  induction n, trail using render_induction (f := f) generalizing u trail' with
  | underWay n trail hn =>
    rw [renderSection_of_mem hn]
    constructor
    · intro h
      cases h
    · intro hexp
      obtain ⟨_, _, hreach⟩ := hexp
      exact absurd hn (hreach n .refl)
  | unknown n trail hn hs =>
    rw [renderSection_of_none hn hs]
    constructor
    · intro h
      cases h
    · intro hexp
      obtain ⟨_, ⟨found, _⟩, _⟩ := hexp
      cases hs.symm.trans found
  | found n trail s hn hs ih =>
    rw [renderSection_found_eq_ok_iff hn hs]
    constructor
    · intro hrun
      obtain ⟨rfl, es, hes, rfl⟩ := hrun
      refine ⟨rfl, .intro hs (forall₂_filled_imp hes fun m _ v hv => (ih m |>.1 hv).2.1), ?_⟩
      intro m hm
      rcases ReflTransGen.cases_head hm with rfl | ⟨k, ⟨s', hs', hk⟩, hkm⟩
      · exact hn
      · cases hs.symm.trans hs'
        obtain ⟨v, hv⟩ := exists_of_forall₂_filled hes k hk
        have hfree := (ih k |>.1 hv).2.2 m hkm
        exact fun hseen => hfree (List.mem_cons_of_mem n hseen)
    · intro hexp
      obtain ⟨rfl, hexp, hreach⟩ := hexp
      obtain ⟨es, filled, rfl⟩ := (expand_iff hs).1 hexp
      refine ⟨rfl, es, forall₂_filled_imp filled fun k hk v hv => ?_, rfl⟩
      have hstep : f.Refers n k := ⟨s, hs, hk⟩
      refine (ih k).2 ⟨rfl, hv, fun m hm hseen => ?_⟩
      rcases List.mem_cons.1 hseen with rfl | hseen
      · exact hexp.acyclic m .refl (TransGen.head'_iff.2 ⟨k, hstep, hm⟩)
      · exact hreach m (hm.head hstep) hseen

end Trails

/-- A file renders to a text exactly when the text is the expansion of its root. -/
theorem render_eq_ok_iff_expand (f : CodeFile) (t : Text) :
    f.render = .ok t ↔ f.Expand .root t := by
  rw [render_eq_ok_iff, renderSection_eq_ok_iff]
  constructor
  · exact fun h => h.2.1
  · exact fun h => ⟨rfl, h, fun _ _ hm => absurd hm List.not_mem_nil⟩

example : CodeFile.render ⟨['f'], [⟨.root, ['f'], ["<<a>>, <<#b>>".toList, "end".toList], []⟩,
    ⟨.named ['a'], ['f'], ["[<<b>>]".toList], []⟩, ⟨.named ['b'], ['f'], ["<x>".toList], []⟩]⟩ =
    .ok "[<x>], <x>\nend".toList := by
  decide +kernel

end CodeFile

end Literate
