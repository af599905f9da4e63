import Literate.Proofs.Failure
import Mathlib.Data.List.Nodup

/-!
# Trails under any calls

A trail holds the sections under way twice, as a stack and as names to look up, and a failure leaves
it as it is at that point. Sections may be entered, left and rendered on one trail in any order, for
any files and after any failures: no name is ever on the stack twice, and the names to look up are
those on the stack.
-/

namespace Literate

namespace Trail

/-- What can be done on a trail. -/
inductive Move where
  | enter (n : SectionName)
  | exit
  | render (f : CodeFile) (n : SectionName)
  deriving DecidableEq, Repr

/-- The trail after a move. A section that cannot be entered leaves it alone. -/
def apply (t : Trail) : Move → Trail
  | .enter n =>
    match t.enter n with
    | .ok inside => inside
    | .error _ => t
  | .exit => t.exit
  | .render f n => (f.renderSection n t).2

def run (t : Trail) : List Move → Trail
  | [] => t
  | m :: ms => (t.apply m).run ms

/-- The stack repeats no name, and the names to look up are those of the stack, last one first. -/
structure IsConsistent (t : Trail) : Prop where
  nodup : t.stack.Nodup
  seen_eq : t.seen = t.stack.reverse

variable {t : Trail} {n : SectionName} {path : List SectionName}

theorem isConsistent_start (file : Text) : (start file).IsConsistent :=
  ⟨List.nodup_nil, rfl⟩

theorem IsConsistent.mem_seen_iff (h : t.IsConsistent) : n ∈ t.seen ↔ n ∈ t.stack := by
  rw [h.seen_eq, List.mem_reverse]

theorem IsConsistent.nodup_seen (h : t.IsConsistent) : t.seen.Nodup := by
  rw [h.seen_eq, List.nodup_reverse]
  exact h.nodup

theorem IsConsistent.inside (h : t.IsConsistent) (hn : n ∉ t.seen) : (t.inside n).IsConsistent where
  nodup := by
    rw [inside_stack, ← List.concat_eq_append]
    exact h.nodup.concat fun hmem => hn (h.mem_seen_iff.2 hmem)
  seen_eq := by
    rw [inside_seen, inside_stack, List.reverse_append, h.seen_eq]
    rfl

theorem IsConsistent.exit (h : t.IsConsistent) : t.exit.IsConsistent := by
  rcases List.eq_nil_or_concat' t.stack with hstack | ⟨rest, n, hstack⟩
  · have hexit : t.exit = t := by simp [Trail.exit, hstack]
    rw [hexit]
    exact h
  · -- the name that comes off the stack is also the first one to look up
    have hexit : t.exit = { t with stack := rest, seen := rest.reverse } := by
      simp [Trail.exit, hstack, h.seen_eq]
    have hnodup := h.nodup
    rw [hstack] at hnodup
    rw [hexit]
    exact ⟨hnodup.of_append_left, rfl⟩

theorem stack_foldl_inside (t : Trail) (path : List SectionName) :
    (path.foldl Trail.inside t).stack = t.stack ++ path := by
  induction path generalizing t with
  | nil => simp
  | cons n path ih => simp [ih]

/-- Sections that are new to the trail and to each other may be entered one after the other. -/
theorem IsConsistent.foldl_inside (h : t.IsConsistent) (hpath : path.Nodup)
    (hfresh : ∀ m ∈ path, m ∉ t.seen) : (path.foldl Trail.inside t).IsConsistent := by
  induction path generalizing t with
  | nil => exact h
  | cons n path ih =>
    obtain ⟨hn, hrest⟩ := List.nodup_cons.1 hpath
    obtain ⟨hnew, hfresh⟩ := List.forall_mem_cons.1 hfresh
    refine ih (h.inside hnew) hrest fun m hm => ?_
    rw [inside_seen, List.mem_cons, not_or]
    exact ⟨fun heq => hn (heq ▸ hm), hfresh m hm⟩

theorem IsConsistent.render (h : t.IsConsistent) (f : CodeFile) (n : SectionName) :
    (f.renderSection n t).2.IsConsistent := by
  rcases hrun : f.renderSection n t with ⟨e | u, t'⟩
  · obtain ⟨path, last, hpath, ⟨_, _, rfl⟩ | ⟨⟨hlast, hnew⟩, _, _, rfl⟩⟩ :=
      CodeFile.leadsTo_of_renderSection hrun
    · exact h.foldl_inside hpath.distinct hpath.fresh
    · rw [← List.concat_eq_append]
      refine h.foldl_inside (hpath.distinct.concat hlast) ?_
      rw [List.concat_eq_append, List.forall_mem_append, List.forall_mem_singleton]
      exact ⟨hpath.fresh, hnew⟩
  · obtain rfl := CodeFile.renderSection_restores _ _ _ _ hrun
    exact h

/-- The step lemma. -/
theorem IsConsistent.apply (h : t.IsConsistent) (m : Move) : (t.apply m).IsConsistent := by
  cases m with
  | enter n =>
    by_cases hn : n ∈ t.seen
    · simpa only [Trail.apply, enter_of_mem hn] using h
    · simpa only [Trail.apply, enter_of_not_mem hn] using h.inside hn
  | exit => exact h.exit
  | render f n => exact h.render f n

/-- The run lemma. -/
theorem IsConsistent.run (h : t.IsConsistent) (ms : List Move) : (t.run ms).IsConsistent := by
  induction ms generalizing t with
  | nil => exact h
  | cons m ms ih => exact ih (h.apply m)

/-- However a trail has been used, its stack repeats no name, its names to look up are those of the
stack, and its depth is the length of the stack. A section that renders leaves the trail as it was.
One that fails leaves the sections that it has entered and not finished on top of the old stack:
they lead from the section itself to where the failure is, and all markers passed on the way have
been expanded. A cycle is that stack with the repeated name behind it; a missing section is the last
name of it. -/
theorem stack_after_moves (file : Text) (ms : List Move) :
    let t := (start file).run ms
    t.stack.Nodup ∧ t.seen.Nodup ∧ (∀ n, n ∈ t.seen ↔ n ∈ t.stack) ∧ t.depth = t.stack.length ∧
      ∀ (f : CodeFile) (n : SectionName) (t' : Trail),
        (∀ u, f.renderSection n t = (.ok u, t') → t' = t) ∧
        ∀ e, f.renderSection n t = (.error e, t') →
          ∃ path last, f.LeadsTo t.seen n path last ∧
            (t'.stack = t.stack ++ path ∧ last ∈ t'.stack ∧
                e = .cycle t.file (t'.stack ++ [last]) ∨
              t'.stack = t.stack ++ (path ++ [last]) ∧ f.section? last = none ∧
                e = .missingSection f.name last) := by
  intro t
  have ht : t.IsConsistent := (isConsistent_start file).run ms
  refine ⟨ht.nodup, ht.nodup_seen, fun n => ht.mem_seen_iff, rfl, fun f n t' => ⟨?_, ?_⟩⟩
  · intro u hrun
    exact CodeFile.renderSection_restores _ _ _ _ hrun
  · intro e hrun
    obtain ⟨path, last, hpath, ⟨hmem, rfl, rfl⟩ | ⟨_, hnone, rfl, rfl⟩⟩ :=
      CodeFile.leadsTo_of_renderSection hrun
    · refine ⟨path, last, hpath, .inl ⟨stack_foldl_inside t path, ?_, ?_⟩⟩
      · rw [stack_foldl_inside, List.mem_append, ← ht.mem_seen_iff]
        exact hmem.symm
      · rw [stack_foldl_inside]
    · exact ⟨path, last, hpath, .inr ⟨stack_foldl_inside t _, hnone, rfl⟩⟩

/-- The trail still has `root` and `#b` on it from a failed rendering of one file when a section of
another one refers to `#b`. -/
theorem stack_after_moves_failed :
    let a : SectionName := .named ['a']
    let b : SectionName := .named ['b']
    let c : SectionName := .named ['c']
    let f : CodeFile := ⟨['f'], [⟨.root, ['f'], ["<<b>>".toList], [b]⟩,
      ⟨b, ['f'], ["<<c>>".toList], [c]⟩]⟩
    let g : CodeFile := ⟨['g'], [⟨a, ['g'], [['1']], []⟩, ⟨c, ['g'], ["<<b>>".toList], [b]⟩]⟩
    let t := (start ['f']).run [.enter a, .enter a, .render f .root, .exit]
    let t' : Trail := ⟨['f'], [a, .root, b, c], [c, b, .root, a]⟩
    t.stack = [a, .root, b] ∧ t.stack.Nodup ∧
      g.renderSection c t = (.error (.cycle ['f'] (t'.stack ++ [b])), t') ∧
      g.LeadsTo t.seen c [c] b := by
  intro a b c f g t t'
  have hstack : t.stack = [a, .root, b] := by decide +kernel
  have hrun : g.renderSection c t = (.error (.cycle ['f'] (t'.stack ++ [b])), t') := by
    decide +kernel
  obtain ⟨hnodup, _, _, _, hrender⟩ := stack_after_moves ['f']
    [.enter a, .enter a, .render f .root, .exit]
  obtain ⟨path, last, hpath, ⟨hgrown, _, he⟩ | ⟨_, _, he⟩⟩ := (hrender g c t').2 _ hrun
  · rw [hstack] at hgrown
    have hgrown : [a, .root, b] ++ [c] = [a, .root, b] ++ path := hgrown
    obtain rfl := List.append_cancel_left hgrown
    injection he with _ hchain
    obtain rfl : b = last := by simpa using hchain
    exact ⟨hstack, hnodup, hrun, hpath⟩
  · cases he

end Trail

end Literate
