import Literate.Proofs.Discovery
import Mathlib.Data.List.Sort

/-!
# The order of paths

Paths are ordered by components, so two spellings of one path have the same place in the order. Up
to spellings the order is linear. Sorting a list of paths and dropping repetitions gives a strictly
increasing list with one spelling of each path, and such a list is determined by its members.
-/

namespace Literate

/-- The laws of a linear order, for a comparison that can be computed. -/
structure IsLinear {α : Type} (le : α → α → Bool) : Prop where
  total : ∀ a b, le a b = true ∨ le b a = true
  antisymm : ∀ {a b}, le a b = true → le b a = true → a = b
  trans : ∀ {a b c}, le a b = true → le b c = true → le a c = true

theorem isLinear_ble : IsLinear Nat.ble where
  total := by
    intro a b
    rw [Nat.ble_eq, Nat.ble_eq]
    omega
  antisymm := by
    intro a b hab hba
    rw [Nat.ble_eq] at hab hba
    omega
  trans := by
    intro a b c hab hbc
    rw [Nat.ble_eq] at hab hbc ⊢
    omega

section Words
variable {α : Type} [DecidableEq α] {le : α → α → Bool}

theorem lexLe_cons_iff {a b : α} {s t : List α} :
    Text.lexLe le (a :: s) (b :: t) = true ↔
      a = b ∧ Text.lexLe le s t = true ∨ a ≠ b ∧ le a b = true := by
  rw [Text.lexLe]
  by_cases hab : a = b
  · simp [hab]
  · simp [hab]

/-- Words over an ordered alphabet are ordered. -/
theorem IsLinear.lexLe (h : IsLinear le) : IsLinear (Text.lexLe le) where
  total := by
    intro s t
    induction s generalizing t with
    | nil => exact .inl rfl
    | cons a s ih =>
      cases t with
      | nil => exact .inr rfl
      | cons b t =>
        rw [lexLe_cons_iff, lexLe_cons_iff]
        by_cases hab : a = b
        · rcases ih t with hst | hts
          · exact .inl (.inl ⟨hab, hst⟩)
          · exact .inr (.inl ⟨hab.symm, hts⟩)
        · rcases h.total a b with hle | hle
          · exact .inl (.inr ⟨hab, hle⟩)
          · exact .inr (.inr ⟨Ne.symm hab, hle⟩)
  antisymm := by
    intro s t hst hts
    induction s generalizing t with
    | nil =>
      cases t with
      | nil => rfl
      | cons b t => cases hts
    | cons a s ih =>
      cases t with
      | nil => cases hst
      | cons b t =>
        rw [lexLe_cons_iff] at hst hts
        rcases hst with ⟨rfl, hst⟩ | ⟨hab, hle⟩
        · rcases hts with ⟨_, hts⟩ | ⟨hne, _⟩
          · rw [ih hst hts]
          · exact absurd rfl hne
        · rcases hts with ⟨heq, _⟩ | ⟨_, hle'⟩
          · exact absurd heq.symm hab
          · exact absurd (h.antisymm hle hle') hab
  trans := by
    intro s t u hst htu
    induction s generalizing t u with
    | nil => rfl
    | cons a s ih =>
      cases t with
      | nil => cases hst
      | cons b t =>
        cases u with
        | nil => cases htu
        | cons c u =>
          rw [lexLe_cons_iff] at hst htu ⊢
          rcases hst with ⟨rfl, hst⟩ | ⟨hab, hle⟩
          · rcases htu with ⟨hac, htu⟩ | hac
            · exact .inl ⟨hac, ih hst htu⟩
            · exact .inr hac
          · rcases htu with ⟨rfl, _⟩ | ⟨hbc, hle'⟩
            · exact .inr ⟨hab, hle⟩
            · refine .inr ⟨?_, h.trans hle hle'⟩
              intro hac
              subst hac
              exact hab (h.antisymm hle hle')

end Words

namespace Path
variable {p q r : Path} {ps qs : List Path}

theorem same_iff_key : p.same q = true ↔ p.key = q.key := by
  rw [same, decide_eq_true_iff]
  constructor
  · intro h
    rw [key, key, h]
  · intro h
    exact List.map_injective_iff.2 (fun _ _ => Component.key_injective) h

theorem same_refl (p : Path) : p.same p = true :=
  same_iff_key.2 rfl

theorem same_trans (hpq : p.same q = true) (hqr : q.same r = true) : p.same r = true := by
  rw [same_iff_key] at hpq hqr ⊢
  rw [hpq, hqr]

theorem isLinear_key : IsLinear (Text.lexLe (Text.lexLe Nat.ble)) :=
  isLinear_ble.lexLe.lexLe

theorem le_total (p q : Path) : p.le q = true ∨ q.le p = true :=
  isLinear_key.total p.key q.key

theorem le_trans (hpq : p.le q = true) (hqr : q.le r = true) : p.le r = true :=
  isLinear_key.trans hpq hqr

theorem same_of_le (hpq : p.le q = true) (hqp : q.le p = true) : p.same q = true :=
  same_iff_key.2 (isLinear_key.antisymm hpq hqp)

theorem le_of_same (h : p.same q = true) : p.le q = true := by
  have hkey := same_iff_key.1 h
  rcases le_total p q with hle | hle
  · exact hle
  · rw [le, hkey] at hle ⊢
    exact hle

theorem same_comm (p q : Path) : p.same q = q.same p := by
  rw [Bool.eq_iff_iff, same_iff_key, same_iff_key]
  exact eq_comm

/-- The one path comes strictly before the other one. -/
def Before (p q : Path) : Prop :=
  p.le q = true ∧ p.same q = false

theorem not_same_of_before (h : p.Before q) : ¬ p.same q = true := by
  rw [h.2]
  exact Bool.false_ne_true

theorem Before.trans (hpq : p.Before q) (hqr : q.Before r) : p.Before r := by
  refine ⟨le_trans hpq.1 hqr.1, ?_⟩
  rw [Bool.eq_false_iff]
  intro hsame
  rw [same_comm] at hsame
  have hqp := le_trans hqr.1 (le_of_same hsame)
  exact not_same_of_before hpq (same_of_le hpq.1 hqp)

instance : Std.Irrefl Before where
  irrefl p h := not_same_of_before h (same_refl p)

instance : Std.Antisymm Before where
  antisymm _ _ hpq hqp := absurd (same_of_le hpq.1 hqp.1) (not_same_of_before hpq)

theorem before_of_not_le (h : ¬ p.le q = true) : q.Before p := by
  refine ⟨(le_total p q).resolve_left h, ?_⟩
  rw [Bool.eq_false_iff]
  intro hsame
  rw [same_comm] at hsame
  exact h (le_of_same hsame)

theorem pairwise_sort (ps : List Path) : (sort ps).Pairwise fun p q => p.le q = true := by
  apply List.pairwise_mergeSort
  · intro p q r
    exact le_trans
  · intro p q
    rw [Bool.or_eq_true]
    exact le_total p q

theorem pairwise_dedupAfter (h : (p :: qs).Pairwise fun p q => p.le q = true) :
    (p :: dedupAfter p qs).Pairwise Before := by
  induction qs generalizing p with
  | nil => exact List.pairwise_singleton _ _
  | cons q qs ih =>
    obtain ⟨hp, hqs⟩ := List.pairwise_cons.1 h
    rw [dedupAfter]
    split
    · -- `q` is dropped, and `p` stays the path that the rest is compared with
      apply ih
      exact List.pairwise_cons.2 ⟨(List.forall_mem_cons.1 hp).2, (List.pairwise_cons.1 hqs).2⟩
    · rename_i hsame
      have hrest := ih hqs
      have hpq : p.Before q := ⟨hp q List.mem_cons_self, by simpa using hsame⟩
      refine List.pairwise_cons.2 ⟨List.forall_mem_cons.2 ⟨hpq, fun r hr => ?_⟩, hrest⟩
      exact hpq.trans ((List.pairwise_cons.1 hrest).1 r hr)

/-- Of every path one spelling is kept. -/
theorem exists_same_of_mem_dedupAfter (h : q ∈ p :: qs) :
    ∃ r ∈ p :: dedupAfter p qs, r.same q = true := by
  induction qs generalizing p with
  | nil => exact ⟨p, List.mem_cons_self, by rw [List.mem_singleton.1 h, same_refl]⟩
  | cons s qs ih =>
    rw [dedupAfter]
    split
    · rename_i hsame
      rcases List.mem_cons.1 h with rfl | hrest
      · exact ih List.mem_cons_self
      · rcases List.mem_cons.1 hrest with rfl | hqs
        · exact ⟨p, List.mem_cons_self, hsame⟩
        · exact ih (List.mem_cons_of_mem p hqs)
    · rcases List.mem_cons.1 h with rfl | hrest
      · exact ⟨q, List.mem_cons_self, same_refl q⟩
      · obtain ⟨r, hr, hsame⟩ := ih hrest
        exact ⟨r, List.mem_cons_of_mem p hr, hsame⟩

theorem pairwise_sortDistinct (ps : List Path) : (sortDistinct ps).Pairwise Before := by
  have hsort := pairwise_sort ps
  unfold sortDistinct dedup
  split
  · exact .nil
  · rename_i p qs heq
    rw [heq] at hsort
    exact pairwise_dedupAfter hsort

theorem exists_same_of_mem_sortDistinct (h : p ∈ ps) :
    ∃ q ∈ sortDistinct ps, q.same p = true := by
  have hsort : p ∈ sort ps := List.mem_mergeSort.2 h
  unfold sortDistinct dedup
  split
  · rename_i heq
    rw [heq] at hsort
    cases hsort
  · rename_i q qs heq
    rw [heq] at hsort
    exact exists_same_of_mem_dedupAfter hsort

/-- If every path has one spelling only, none is lost. -/
theorem mem_sortDistinct_iff (h : ∀ p ∈ ps, ∀ q ∈ ps, p.same q = true → p = q) :
    p ∈ sortDistinct ps ↔ p ∈ ps := by
  constructor
  · exact mem_of_mem_sortDistinct
  · intro hp
    obtain ⟨q, hq, hsame⟩ := exists_same_of_mem_sortDistinct hp
    rw [← h q (mem_of_mem_sortDistinct hq) p hp hsame]
    exact hq

/-- A strictly increasing list has one spelling of each of its paths. -/
theorem eq_of_before (hps : ps.Pairwise Before) (hp : p ∈ ps) (hq : q ∈ ps)
    (hsame : p.same q = true) : p = q := by
  induction hps with
  | nil => cases hp
  | cons hfirst _ ih =>
    rcases List.mem_cons.1 hp with rfl | hp'
    · rcases List.mem_cons.1 hq with rfl | hq'
      · rfl
      · exact absurd hsame (not_same_of_before (hfirst q hq'))
    · rcases List.mem_cons.1 hq with rfl | hq'
      · rw [same_comm] at hsame
        exact absurd hsame (not_same_of_before (hfirst p hp'))
      · exact ih hp' hq'

theorem isIn_iff : p.isIn ps = true ↔ ∃ q ∈ ps, p.same q = true :=
  List.any_eq_true

theorem isIn_of_mem (h : p ∈ ps) : p.isIn ps = true :=
  isIn_iff.2 ⟨p, h, same_refl p⟩

theorem isIn_append : p.isIn (ps ++ qs) = true ↔ p.isIn ps = true ∨ p.isIn qs = true := by
  rw [isIn, List.any_append, Bool.or_eq_true]
  rfl

theorem isIn_sortDistinct : p.isIn (sortDistinct ps) = true ↔ p.isIn ps = true := by
  rw [isIn_iff, isIn_iff]
  constructor
  · intro h
    obtain ⟨q, hq, hsame⟩ := h
    exact ⟨q, mem_of_mem_sortDistinct hq, hsame⟩
  · intro h
    obtain ⟨q, hq, hsame⟩ := h
    obtain ⟨r, hr, hrq⟩ := exists_same_of_mem_sortDistinct hq
    rw [same_comm] at hrq
    exact ⟨r, hr, same_trans hsame hrq⟩

/-- Strictly increasing lists of the same paths agree place by place, up to spellings. -/
theorem forall₂_same (hps : ps.Pairwise Before) (hqs : qs.Pairwise Before)
    (h : ∀ p : Path, p.isIn ps = true ↔ p.isIn qs = true) :
    List.Forall₂ (fun p q => p.same q = true) ps qs := by
  -- spellings of one path have one key, so the keys form equal lists
  let less : List (List Nat) → List (List Nat) → Prop := fun k l =>
    Text.lexLe (Text.lexLe Nat.ble) k l = true ∧ k ≠ l
  have : Std.Antisymm less := ⟨fun _ _ hkl hlk => isLinear_key.antisymm hkl.1 hlk.1⟩
  have : Std.Irrefl less := ⟨fun _ hkk => hkk.2 rfl⟩
  have hkeys : ∀ {rs : List Path}, rs.Pairwise Before → (rs.map key).Pairwise less := by
    intro rs hrs
    apply hrs.map key
    intro p q hpq
    exact ⟨hpq.1, fun hkey => not_same_of_before hpq (same_iff_key.2 hkey)⟩
  have hmem : ∀ {rs : List Path} (p : Path), p.key ∈ rs.map key ↔ p.isIn rs = true := by
    intro rs p
    rw [List.mem_map, isIn_iff]
    simp only [same_iff_key, eq_comm (a := p.key)]
  have hmap : ps.map key = qs.map key := by
    apply (hkeys hps).eq_of_mem_iff (hkeys hqs)
    intro k
    constructor
    · intro hk
      obtain ⟨p, hp, rfl⟩ := List.mem_map.1 hk
      exact (hmem p).2 ((h p).1 (isIn_of_mem hp))
    · intro hk
      obtain ⟨p, hp, rfl⟩ := List.mem_map.1 hk
      exact (hmem p).2 ((h p).2 (isIn_of_mem hp))
  rw [← List.forall₂_eq_eq_eq, List.forall₂_map_left_iff, List.forall₂_map_right_iff] at hmap
  exact hmap.imp fun _ _ => same_iff_key.2

/-- A smaller choice from the same paths is a part of the list. -/
theorem sublist_of_subset (hps : ps.Pairwise Before) (hqs : qs.Pairwise Before) (h : ps ⊆ qs) :
    ps.Sublist qs :=
  List.sublist_of_subperm_of_pairwise (List.subperm_of_subset hps.nodup h) hps hqs

end Path

end Literate
