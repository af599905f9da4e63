import Literate.Proofs.Passes
import Literate.Proofs.StoredSources

/-!
# Other spellings of the documents

A table in memory finds a text under every spelling of its path. The spelling of a document goes
into the places of its blocks, and the places go into faults only. So a pass over other spellings of
the same documents succeeds with the same writes.
-/

namespace Literate

/-- The block without its place. -/
def Block.unlocated (b : Block) : Block :=
  { b with location := none }

namespace Store
variable {s s' : Store} {b : Block} {bs : List Block}

theorem add_unlocated : s.add b.unlocated = (s', none) ↔ s.add b = (s', none) := by
  unfold add Block.scan Block.unlocated
  dsimp only
  cases Label.read s.defaultFile (b.label.getD []) with
  | error e => simp
  | ok a => rfl

theorem addAll_unlocated :
    s.addAll (bs.map Block.unlocated) = (s', none) ↔ s.addAll bs = (s', none) := by
  induction bs generalizing s with
  | nil => rfl
  | cons b bs ih =>
    rw [List.map_cons]
    rcases s.refused_or_added b with ⟨e, hb⟩ | ⟨s₁, hb⟩
    · rw [addAll_cons_of_refused hb]
      rcases s.refused_or_added b.unlocated with ⟨e', hb'⟩ | ⟨s₁, hb'⟩
      · rw [addAll_cons_of_refused hb']
        simp
      · cases hb.symm.trans (add_unlocated.1 hb')
    · rw [addAll_cons_of_added hb, addAll_cons_of_added (add_unlocated.2 hb), ih]

end Store

theorem Document.unlocated_blocks (settings : Settings) (p q : Option Path) (t : Text) :
    (read settings p t).blocks.map Block.unlocated =
      (read settings q t).blocks.map Block.unlocated := by
  simp only [read, List.map_filterMap]
  congr 1
  funext f
  unfold block?
  split <;> rfl

theorem MemoryFiles.read_of_same {p q : Path} (h : p.same q = true) (m : MemoryFiles) :
    m.read p = m.read q := by
  have hcomponents : p.components = q.components := of_decide_eq_true h
  simp only [read, Path.same, hcomponents]

namespace Project
variable {settings : Settings} {base : Path} {m : MemoryFiles} {p q : Path} {s : Store}
  {docs docs' : List Path} {ws : Transaction}

theorem unlocated_blocksOf (h : p.same q = true) :
    ((inMemory settings base m).blocksOf p).map Block.unlocated =
      ((inMemory settings base m).blocksOf q).map Block.unlocated := by
  have hread : (inMemory settings base m).files.read p = (inMemory settings base m).files.read q :=
    m.read_of_same h
  unfold blocksOf
  rw [hread]
  cases (inMemory settings base m).files.read q with
  | error e => rfl
  | ok t => exact Document.unlocated_blocks _ _ _ t

section Spellings
variable (h : List.Forall₂ (fun p q => p.same q = true) docs docs')
include h

theorem readable_spellings :
    (∀ d ∈ docs, ∃ t, (inMemory settings base m).files.read d = .ok t) ↔
      ∀ d ∈ docs', ∃ t, (inMemory settings base m).files.read d = .ok t := by
  induction h with
  | nil => rfl
  | @cons p q _ _ hpq _ ih =>
    have hread : (inMemory settings base m).files.read p =
        (inMemory settings base m).files.read q := m.read_of_same hpq
    rw [List.forall_mem_cons, List.forall_mem_cons, hread, ih]

theorem unlocated_spellings :
    (docs.flatMap (inMemory settings base m).blocksOf).map Block.unlocated =
      (docs'.flatMap (inMemory settings base m).blocksOf).map Block.unlocated := by
  induction h with
  | nil => rfl
  | cons hpq _ ih =>
    rw [List.flatMap_cons, List.flatMap_cons, List.map_append, List.map_append,
      unlocated_blocksOf hpq, ih]

theorem collect_spellings :
    (inMemory settings base m).collect docs = .ok s ↔
      (inMemory settings base m).collect docs' = .ok s := by
  unfold collect
  rw [collectInto_eq_ok_iff, collectInto_eq_ok_iff, readable_spellings h,
    ← Store.addAll_unlocated, unlocated_spellings h, Store.addAll_unlocated]

/-- The writes do not depend on how the documents are spelled. -/
theorem tangle_spellings :
    (inMemory settings base m).tangle docs = .ok ws ↔
      (inMemory settings base m).tangle docs' = .ok ws := by
  rw [tangle_eq_ok_iff, tangle_eq_ok_iff]
  simp only [collect_spellings h]

end Spellings

end Project

end Literate
