import Literate.Proofs.Expansion
import Mathlib.Data.List.Chain

/-!
# Why rendering fails

A failure of rendering comes with a path of sections from the root, each with a marker for the next
one, that ends in a section of the path or in an unknown name. It is the first such path in reading
order: all markers before those of the path have expansions.
-/

namespace Literate

namespace CodeFile

open Relation

/-- Section `a` has a marker for section `b`, and every marker before it has an expansion. -/
def RefersFirst (f : CodeFile) (a b : SectionName) : Prop :=
  ∃ s earlier later, f.section? a = some s ∧ s.markers = earlier ++ b :: later ∧
    ∀ m ∈ earlier, ∃ v, f.Expand m v

/-- A path from `n` to `last` through sections of the file that are different from each other and
from those in `seen`; each refers to the next one, as its first marker that may fail. -/
structure LeadsTo (f : CodeFile) (seen : List SectionName) (n : SectionName)
    (path : List SectionName) (last : SectionName) : Prop where
  starts : (path ++ [last]).head? = some n
  refers : (path ++ [last]).IsChain f.RefersFirst
  distinct : path.Nodup
  present : ∀ m ∈ path, ∃ s, f.section? m = some s
  fresh : ∀ m ∈ path, m ∉ seen

variable {f : CodeFile} {n : SectionName} {trail trail' : Trail} {e : Fault}

theorem LeadsTo.here (f : CodeFile) (seen : List SectionName) (n : SectionName) :
    f.LeadsTo seen n [] n := by
  constructor <;> simp

theorem LeadsTo.enter {seen path : List SectionName} {k last : SectionName} {s : Section}
    (hn : n ∉ seen) (hs : f.section? n = some s) (hstep : f.RefersFirst n k)
    (h : f.LeadsTo (n :: seen) k path last) : f.LeadsTo seen n (n :: path) last where
  starts := rfl
  refers := by
    apply h.refers.cons
    intro m hm
    rw [h.starts] at hm
    cases hm
    exact hstep
  distinct := List.nodup_cons.2 ⟨fun hmem => h.fresh n hmem List.mem_cons_self, h.distinct⟩
  present := by
    intro m hm
    rcases List.mem_cons.1 hm with rfl | hm
    · exact ⟨s, hs⟩
    · exact h.present m hm
  fresh := by
    intro m hm
    rcases List.mem_cons.1 hm with rfl | hm
    · exact hn
    · exact fun hseen => h.fresh m hm (List.mem_cons_of_mem n hseen)

theorem transGen_of_isChain {R : SectionName → SectionName → Prop} {a b : SectionName}
    {between : List SectionName} (h : (a :: (between ++ [b])).IsChain R) : TransGen R a b := by
  induction between generalizing a with
  | nil => exact .single (List.isChain_pair.1 h)
  | cons c between ih =>
    obtain ⟨hac, hrest⟩ := List.isChain_cons_cons.1 h
    exact .head hac (ih hrest)

section Paths
variable {seen path : List SectionName} {last : SectionName}

theorem RefersFirst.refers {a b : SectionName} (h : f.RefersFirst a b) : f.Refers a b := by
  obtain ⟨s, earlier, later, hs, hmarkers, _⟩ := h
  exact ⟨s, hs, by simp [hmarkers]⟩

theorem LeadsTo.refersChain (h : f.LeadsTo seen n path last) :
    (path ++ [last]).IsChain f.Refers :=
  h.refers.imp fun _ _ => RefersFirst.refers

theorem LeadsTo.eq_or_transGen (h : f.LeadsTo seen n path last) :
    path = [] ∧ last = n ∨ TransGen f.Refers n last := by
  have hstarts := h.starts
  have hchain := h.refersChain
  cases path with
  | nil => exact .inl ⟨rfl, Option.some.inj hstarts⟩
  | cons a path =>
    cases hstarts
    exact .inr (transGen_of_isChain hchain)

theorem LeadsTo.transGen_of_mem (h : f.LeadsTo seen n path last) (hmem : last ∈ path) :
    TransGen f.Refers last last := by
  obtain ⟨before, after, rfl⟩ := List.append_of_mem hmem
  have hchain := h.refersChain
  rw [List.append_assoc] at hchain
  exact transGen_of_isChain hchain.right_of_append

end Paths

theorem exists_of_renderSection_found {s : Section} (hn : n ∉ trail.seen)
    (hs : f.section? n = some s) (h : f.renderSection n trail = (.error e, trail')) :
    ∃ k, f.RefersFirst n k ∧ f.renderSection k (trail.inside n) = (.error e, trail') := by
  rw [renderSection_of_some hn hs, Trail.finish_eq_error_iff] at h
  obtain ⟨earlier, k, later, hmarkers, hearlier, hk⟩ :=
    firstFailure_of_fillChunks renderSection_restores h
  refine ⟨k, ⟨s, earlier, later, hs, hmarkers, ?_⟩, hk⟩
  intro m hm
  obtain ⟨v, hv⟩ := hearlier m hm
  exact ⟨v, (renderSection_eq_ok_iff.1 hv).2.1⟩

/-- A failure under a trail leads from the section to one under way or to an unknown one; the
sections on the way stay entered. -/
theorem leadsTo_of_renderSection (h : f.renderSection n trail = (.error e, trail')) :
    ∃ path last, f.LeadsTo trail.seen n path last ∧
      ((last ∈ path ∨ last ∈ trail.seen) ∧
          e = .cycle trail.file (trail.stack ++ path ++ [last]) ∧
          trail' = path.foldl Trail.inside trail ∨
        (last ∉ path ∧ last ∉ trail.seen) ∧ f.section? last = none ∧
          e = .missingSection f.name last ∧ trail' = (path ++ [last]).foldl Trail.inside trail) := by
  induction n, trail using render_induction (f := f) with
  | underWay n trail hn =>
    rw [renderSection_of_mem hn] at h
    cases h
    exact ⟨[], n, .here f _ n, .inl ⟨.inr hn, by simp, rfl⟩⟩
  | unknown n trail hn hs =>
    rw [renderSection_of_none hn hs] at h
    cases h
    exact ⟨[], n, .here f _ n, .inr ⟨⟨List.not_mem_nil, hn⟩, hs, rfl, rfl⟩⟩
  | found n trail s hn hs ih =>
    obtain ⟨k, hstep, hk⟩ := exists_of_renderSection_found hn hs h
    obtain ⟨path, last, hpath, hend⟩ := ih k hk
    refine ⟨n :: path, last, .enter hn hs hstep hpath, ?_⟩
    simp only [Trail.inside_seen, Trail.inside_file, Trail.inside_stack, List.mem_cons] at hend
    rcases hend with ⟨hmem, he, ht⟩ | ⟨⟨hpath, hseen⟩, hnone, he, ht⟩
    · refine .inl ⟨?_, by simpa using he, ht⟩
      simp only [List.mem_cons]
      tauto
    · refine .inr ⟨?_, hnone, he, ht⟩
      simp only [List.mem_cons]
      tauto

/-- A failure names the file, and its path from the root ends in a section of the path or in an
unknown one. Every section of the path refers to the next, and every marker before that has an
expansion. -/
theorem path_of_render_eq_error (h : f.render = .error e) :
    ∃ path last, (path ++ [last]).head? = some .root ∧
      (path ++ [last]).IsChain f.RefersFirst ∧ path.Nodup ∧
      (∀ m ∈ path, ∃ s, f.section? m = some s) ∧
      (last ∈ path ∧ e = .cycle f.name (path ++ [last]) ∨
        last ∉ path ∧ f.section? last = none ∧ e = .missingSection f.name last) := by
  obtain ⟨after, hrun⟩ := render_eq_error_iff.1 h
  obtain ⟨path, last, hpath, hend⟩ := leadsTo_of_renderSection hrun
  refine ⟨path, last, hpath.starts, hpath.refers, hpath.distinct, hpath.present, ?_⟩
  rcases hend with ⟨hmem, he, _⟩ | ⟨⟨hlast, _⟩, hnone, he, _⟩
  · exact .inl ⟨hmem.resolve_right List.not_mem_nil, he⟩
  · exact .inr ⟨hlast, hnone, he⟩

/-- The cycle of `b` and `c` is found behind the markers for `a`, which have expansions. -/
theorem path_of_render_eq_error_behind :
    let f : CodeFile := ⟨['f'], [⟨.root, ['f'], ["<<a>> <<b>>".toList], []⟩,
      ⟨.named ['a'], ['f'], ["1".toList], []⟩,
      ⟨.named ['b'], ['f'], ["<<a>>".toList, "<<c>>".toList], []⟩,
      ⟨.named ['c'], ['f'], ["<<#b>>".toList], []⟩]⟩
    let chain : List SectionName := [.root, .named ['b'], .named ['c'], .named ['b']]
    f.render = .error (.cycle ['f'] chain) ∧ chain.IsChain f.RefersFirst := by
  intro f chain
  have hrender : f.render = .error (.cycle ['f'] chain) := by decide +kernel
  obtain ⟨path, last, _, hchain, _, _, ⟨_, he⟩ | ⟨_, _, he⟩⟩ := path_of_render_eq_error hrender
  · injection he with _ hsame
    exact ⟨hrender, hsame ▸ hchain⟩
  · cases he

end CodeFile

end Literate
