import Mathlib.Data.List.Forall2

/-!
# Sequences of steps that may fail

Steps are taken one after the other up to the first that fails. So they succeed with one result for
each step, in order, or fail with the error of the first step that does. What lists of results have
to do with the lists they come from stands here too.
-/

namespace Literate

variable {α β γ ε : Type} {f g : α → Except ε β} {a : α} {b : β} {l : List α} {e : ε}

/-- The first of the steps that fails, in order, fails with `e`. -/
def FirstError (f : α → Except ε β) (l : List α) (e : ε) : Prop :=
  ∃ earlier a later, l = earlier ++ a :: later ∧ (∀ b ∈ earlier, ∃ r, f b = .ok r) ∧
    f a = .error e

theorem mapM_cons_of_error (h : f a = .error e) (l : List α) : (a :: l).mapM f = .error e := by
  rw [List.mapM_cons, h]
  rfl

theorem mapM_cons_of_ok (h : f a = .ok b) (l : List α) :
    (a :: l).mapM f = (l.mapM f).map (b :: ·) := by
  rw [List.mapM_cons, h]
  cases l.mapM f <;> rfl

theorem not_firstError_nil : ¬ FirstError f [] e := by
  intro h
  obtain ⟨earlier, a, later, hl, _⟩ := h
  cases earlier <;> cases hl

theorem firstError_cons_iff :
    FirstError f (a :: l) e ↔ f a = .error e ∨ (∃ b, f a = .ok b) ∧ FirstError f l e := by
  constructor
  · intro h
    obtain ⟨earlier, a', later, hl, hearlier, herror⟩ := h
    cases earlier with
    | nil =>
      cases hl
      exact .inl herror
    | cons b earlier =>
      cases hl
      obtain ⟨hfirst, hearlier⟩ := List.forall_mem_cons.1 hearlier
      exact .inr ⟨hfirst, earlier, a', later, rfl, hearlier, herror⟩
  · intro h
    rcases h with herror | ⟨hfirst, earlier, a', later, rfl, hearlier, herror⟩
    · exact ⟨[], a, l, rfl, List.forall_mem_nil _, herror⟩
    · exact ⟨a :: earlier, a', later, rfl, List.forall_mem_cons.2 ⟨hfirst, hearlier⟩, herror⟩

theorem map_eq_ok_iff {x : Except ε β} {h : β → γ} {c : γ} :
    x.map h = .ok c ↔ ∃ b, x = .ok b ∧ h b = c := by
  cases x with
  | error e => simp [Except.map]
  | ok b => simp [Except.map]

theorem map_eq_error_iff {x : Except ε β} {h : β → γ} : x.map h = .error e ↔ x = .error e := by
  cases x with
  | error e => simp [Except.map]
  | ok b => simp [Except.map]

theorem exists_map_eq_ok_iff {x : Except ε β} {h : β → γ} :
    (∃ c, x.map h = .ok c) ↔ ∃ b, x = .ok b := by
  cases x with
  | error e => simp [Except.map]
  | ok b => simp [Except.map]

/-- The steps succeed with one result for each, in order. -/
theorem mapM_eq_ok_iff {bs : List β} :
    l.mapM f = .ok bs ↔ List.Forall₂ (fun a b => f a = .ok b) l bs := by
  induction l generalizing bs with
  | nil =>
    rw [List.forall₂_nil_left_iff]
    constructor
    · intro h
      cases h
      rfl
    · intro h
      rw [h]
      rfl
  | cons a l ih =>
    cases ha : f a with
    | error e =>
      rw [mapM_cons_of_error ha, List.forall₂_cons_left_iff]
      simp [ha]
    | ok b =>
      rw [mapM_cons_of_ok ha, map_eq_ok_iff, List.forall₂_cons_left_iff]
      constructor
      · intro h
        obtain ⟨rest, hrest, rfl⟩ := h
        exact ⟨b, rest, ha, ih.1 hrest, rfl⟩
      · intro h
        obtain ⟨b', rest, hb', hrest, rfl⟩ := h
        cases ha.symm.trans hb'
        exact ⟨rest, ih.2 hrest, rfl⟩

/-- The steps fail with the error of the first that does. -/
theorem mapM_eq_error_iff : l.mapM f = .error e ↔ FirstError f l e := by
  induction l with
  | nil =>
    constructor
    · intro h
      cases h
    · exact fun h => absurd h not_firstError_nil
  | cons a l ih =>
    rw [firstError_cons_iff]
    cases ha : f a with
    | error e' =>
      rw [mapM_cons_of_error ha]
      simp
    | ok b =>
      rw [mapM_cons_of_ok ha, map_eq_error_iff, ih]
      simp

theorem exists_mapM_eq_ok_iff : (∃ bs, l.mapM f = .ok bs) ↔ ∀ a ∈ l, ∃ b, f a = .ok b := by
  induction l with
  | nil => exact ⟨fun _ => List.forall_mem_nil _, fun _ => ⟨[], rfl⟩⟩
  | cons a l ih =>
    rw [List.forall_mem_cons, ← ih]
    cases ha : f a with
    | error e =>
      rw [mapM_cons_of_error ha]
      simp
    | ok b =>
      rw [mapM_cons_of_ok ha]
      simp only [map_eq_ok_iff]
      constructor
      · intro h
        obtain ⟨_, bs, hbs, _⟩ := h
        exact ⟨⟨b, rfl⟩, bs, hbs⟩
      · intro h
        obtain ⟨_, bs, hbs⟩ := h
        exact ⟨b :: bs, bs, hbs, rfl⟩

theorem exists_mem_results_iff {P : β → Prop} {bs : List β} (h : l.mapM f = .ok bs) :
    (∃ b ∈ bs, P b) ↔ ∃ a ∈ l, ∃ b, f a = .ok b ∧ P b := by
  have hresults := mapM_eq_ok_iff.1 h
  clear h
  induction hresults with
  | nil => simp
  | cons hab _ ih => simp [ih, hab]

/-- What is made of the results does not change where the steps fail. -/
theorem firstError_map_iff {h : α → β → γ} :
    FirstError (fun a => (f a).map (h a)) l e ↔ FirstError f l e := by
  induction l with
  | nil => exact ⟨fun h => absurd h not_firstError_nil, fun h => absurd h not_firstError_nil⟩
  | cons a l ih =>
    rw [firstError_cons_iff, firstError_cons_iff, ih, map_eq_error_iff, exists_map_eq_ok_iff]

theorem elim_eq_ok_iff {o : Option β} :
    o.elim (.error e) .ok = (.ok b : Except ε β) ↔ o = some b := by
  cases o <;> simp

theorem exists_of_filterMap_eq {p : α → Option β} {before after : List β}
    (h : l.filterMap p = before ++ b :: after) :
    ∃ front a back, l = front ++ a :: back ∧ front.filterMap p = before ∧ p a = some b := by
  obtain ⟨front, rest, rfl, hfront, hrest⟩ := List.filterMap_eq_append_iff.1 h
  obtain ⟨skipped, a, back, rfl, hskipped, ha, _⟩ := List.filterMap_eq_cons_iff.1 hrest
  refine ⟨front ++ skipped, a, back, (List.append_assoc _ _ _).symm, ?_, ha⟩
  rw [List.filterMap_append, hfront, List.filterMap_eq_nil_iff.2 hskipped, List.append_nil]

theorem exists_of_mem_forall₂ {R : α → β → Prop} {m : List β} (h : List.Forall₂ R l m)
    (hb : b ∈ m) : ∃ a ∈ l, R a b := by
  induction h with
  | nil => cases hb
  | @cons a b' l m hab hrest ih =>
    rcases List.mem_cons.1 hb with rfl | hb
    · exact ⟨a, List.mem_cons_self, hab⟩
    · obtain ⟨a', ha', hab'⟩ := ih hb
      exact ⟨a', List.mem_cons_of_mem a ha', hab'⟩

theorem map_eq_map_of_forall₂ {key : α → γ} {key' : β → γ} {m : List β}
    (h : List.Forall₂ (fun a b => key a = key' b) l m) : l.map key = m.map key' := by
  induction h with
  | nil => rfl
  | cons hab _ ih => rw [List.map_cons, List.map_cons, hab, ih]

theorem mapM_congr (h : ∀ a ∈ l, f a = g a) : l.mapM f = l.mapM g := by
  induction l with
  | nil => rfl
  | cons a l ih =>
    obtain ⟨ha, hl⟩ := List.forall_mem_cons.1 h
    rw [List.mapM_cons, List.mapM_cons, ha, ih hl]

end Literate
