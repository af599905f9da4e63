import Literate.Tangling
import Mathlib.Data.List.Basic

/-!
# Passes over documents

A pass adds the blocks of its documents one after the other. It stops at the first document that
cannot be read or at the first block that is refused, whichever comes first. So it succeeds exactly
if all documents can be read and all their blocks, taken together, can be added.
-/

namespace Literate

namespace Store
variable {s s' : Store} {b : Block} {bs : List Block} {e : Fault}

theorem addAll_cons_of_added (h : s.add b = (s', none)) (bs : List Block) :
    s.addAll (b :: bs) = s'.addAll bs := by
  simp only [addAll, h]

theorem addAll_cons_of_refused (h : s.add b = (s, some e)) (bs : List Block) :
    s.addAll (b :: bs) = (s, some e) := by
  simp only [addAll, h]

theorem addAll_append (h : s.addAll bs = (s', none)) (cs : List Block) :
    s.addAll (bs ++ cs) = s'.addAll cs := by
  induction bs generalizing s with
  | nil =>
    cases h
    rfl
  | cons b bs ih =>
    rcases s.refused_or_added b with ⟨e, hb⟩ | ⟨s₁, hb⟩
    · rw [addAll_cons_of_refused hb] at h
      cases h
    · rw [addAll_cons_of_added hb] at h
      rw [List.cons_append, addAll_cons_of_added hb]
      exact ih h

/-- Blocks are added up to the first that is refused. -/
theorem addAll_eq_some_iff :
    s.addAll bs = (s', some e) ↔ ∃ before b after, bs = before ++ b :: after ∧
      s.addAll before = (s', none) ∧ s'.add b = (s', some e) := by
  constructor
  · intro h
    induction bs generalizing s with
    | nil => cases h
    | cons b bs ih =>
      rcases s.refused_or_added b with ⟨e', hb⟩ | ⟨s₁, hb⟩
      · rw [addAll_cons_of_refused hb] at h
        cases h
        exact ⟨[], b, bs, rfl, rfl, hb⟩
      · rw [addAll_cons_of_added hb] at h
        obtain ⟨before, c, after, rfl, hbefore, hc⟩ := ih h
        exact ⟨b :: before, c, after, rfl, by rw [addAll_cons_of_added hb, hbefore], hc⟩
  · intro h
    obtain ⟨before, b, after, rfl, hbefore, hb⟩ := h
    rw [addAll_append hbefore, addAll_cons_of_refused hb]

theorem addAll_append_of_some (h : s.addAll bs = (s', some e)) (cs : List Block) :
    s.addAll (bs ++ cs) = (s', some e) := by
  obtain ⟨before, b, after, rfl, hbefore, hb⟩ := addAll_eq_some_iff.1 h
  exact addAll_eq_some_iff.2 ⟨before, b, after ++ cs, by simp, hbefore, hb⟩

theorem exists_of_addAll_append {cs : List Block} (h : s.addAll (bs ++ cs) = (s', none)) :
    ∃ s₁, s.addAll bs = (s₁, none) ∧ s₁.addAll cs = (s', none) := by
  rcases hbs : s.addAll bs with ⟨s₁, _ | e⟩
  · rw [addAll_append hbs] at h
    exact ⟨s₁, rfl, h⟩
  · rw [addAll_append_of_some hbs] at h
    cases h

end Store

namespace Project
variable {pr : Project} {s s' : Store} {paths : List Path} {d : Path} {t : Text} {e : Fault}

/-- The blocks of a document; none if it cannot be read. -/
def blocksOf (pr : Project) (d : Path) : List Block :=
  match pr.files.read d with
  | .ok t => (Document.read pr.settings (some d) t).blocks
  | .error _ => []

theorem blocksOf_of_read (h : pr.files.read d = .ok t) :
    pr.blocksOf d = (Fence.read t).filterMap (Document.block? pr.settings (some d)) := by
  simp only [blocksOf, h, Document.read]

/-- What stops a pass that has come to a document with the store `s`. -/
inductive StopsAt (pr : Project) (s : Store) (d : Path) : Fault → Prop where
  | unreadable {c : AccessError} (h : pr.files.read d = .error c) : StopsAt pr s d (.access c)
  | refused {t : Text} {s' : Store} {e : Fault} (h : pr.files.read d = .ok t)
      (hadd : s.addAll (pr.blocksOf d) = (s', some e)) : StopsAt pr s d e

theorem collectInto_cons_of_stopsAt (h : pr.StopsAt s d e) (paths : List Path) :
    pr.collectInto s (d :: paths) = .error e := by
  cases h with
  | unreadable hread => simp only [collectInto, loadDocument, hread]
  | refused hread hadd =>
    simp only [blocksOf, hread] at hadd
    simp only [collectInto, loadDocument, hread, hadd]

theorem collectInto_cons_of_added (hread : pr.files.read d = .ok t)
    (hadd : s.addAll (pr.blocksOf d) = (s', none)) (paths : List Path) :
    pr.collectInto s (d :: paths) = pr.collectInto s' paths := by
  simp only [blocksOf, hread] at hadd
  simp only [collectInto, loadDocument, hread, hadd]

/-- With each document the pass stops or goes on. -/
theorem stopsAt_or_added (pr : Project) (s : Store) (d : Path) :
    (∃ e, pr.StopsAt s d e) ∨
      ∃ t s', pr.files.read d = .ok t ∧ s.addAll (pr.blocksOf d) = (s', none) := by
  cases hread : pr.files.read d with
  | error c => exact .inl ⟨.access c, .unreadable hread⟩
  | ok t =>
    rcases hadd : s.addAll (pr.blocksOf d) with ⟨s', _ | e⟩
    · exact .inr ⟨t, s', rfl, rfl⟩
    · exact .inl ⟨e, .refused hread hadd⟩

/-- A pass succeeds if all documents can be read and all their blocks can be added. -/
theorem collectInto_eq_ok_iff :
    pr.collectInto s paths = .ok s' ↔ (∀ d ∈ paths, ∃ t, pr.files.read d = .ok t) ∧
      s.addAll (paths.flatMap pr.blocksOf) = (s', none) := by
  induction paths generalizing s with
  | nil =>
    rw [collectInto, List.flatMap_nil, Store.addAll]
    simp
  | cons d paths ih =>
    rw [List.forall_mem_cons, List.flatMap_cons]
    rcases pr.stopsAt_or_added s d with ⟨e, hstops⟩ | ⟨t, s₁, hread, hadd⟩
    · rw [collectInto_cons_of_stopsAt hstops]
      constructor
      · intro h
        cases h
      · intro h
        obtain ⟨⟨⟨t, hread⟩, _⟩, hadd⟩ := h
        cases hstops with
        | unreadable hread' => cases hread.symm.trans hread'
        | refused _ hrefused =>
          rw [Store.addAll_append_of_some hrefused] at hadd
          cases hadd
    · rw [collectInto_cons_of_added hread hadd, Store.addAll_append hadd, ih]
      exact and_congr_left fun _ => (and_iff_right ⟨t, hread⟩).symm

theorem collectInto_append (h : pr.collectInto s paths = .ok s') (later : List Path) :
    pr.collectInto s (paths ++ later) = pr.collectInto s' later := by
  induction paths generalizing s with
  | nil =>
    cases h
    rfl
  | cons d paths ih =>
    rcases pr.stopsAt_or_added s d with ⟨e, hstops⟩ | ⟨t, s₁, hread, hadd⟩
    · rw [collectInto_cons_of_stopsAt hstops] at h
      cases h
    · rw [collectInto_cons_of_added hread hadd] at h
      rw [List.cons_append, collectInto_cons_of_added hread hadd, ih h]

/-- A pass fails at the first document that stops it. -/
theorem collectInto_eq_error_iff :
    pr.collectInto s paths = .error e ↔ ∃ earlier d later s', paths = earlier ++ d :: later ∧
      pr.collectInto s earlier = .ok s' ∧ pr.StopsAt s' d e := by
  constructor
  · intro h
    induction paths generalizing s with
    | nil => cases h
    | cons d paths ih =>
      rcases pr.stopsAt_or_added s d with ⟨e', hstops⟩ | ⟨t, s₁, hread, hadd⟩
      · rw [collectInto_cons_of_stopsAt hstops] at h
        cases h
        exact ⟨[], d, paths, s, rfl, rfl, hstops⟩
      · rw [collectInto_cons_of_added hread hadd] at h
        obtain ⟨earlier, d', later, s', rfl, hearlier, hstops⟩ := ih h
        refine ⟨d :: earlier, d', later, s', rfl, ?_, hstops⟩
        rw [collectInto_cons_of_added hread hadd, hearlier]
  · intro h
    obtain ⟨earlier, d, later, s', rfl, hearlier, hstops⟩ := h
    rw [collectInto_append hearlier, collectInto_cons_of_stopsAt hstops]

theorem tangle_eq_ok_iff {ws : Transaction} :
    pr.tangle paths = .ok ws ↔ ∃ s, pr.collect paths = .ok s ∧ pr.queue s = .ok ws := by
  unfold tangle
  cases pr.collect paths with
  | error e => simp
  | ok s => simp

end Project

end Literate
