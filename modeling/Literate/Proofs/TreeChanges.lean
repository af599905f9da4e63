import Literate.FileTree.Write
import Literate.Proofs.Walking

/-!
# What stands where in a file tree

The node at each place after a node has been put or erased. In a well-formed tree every node has a
name and stands in a directory; both changes keep it so, as long as no directory gives way to
something else.
-/

namespace Literate.FileTree
variable {t u v : FileTree} {place q dir : Place} {node : Node} {n : Text} {c : Content}

theorem find_putNode (place q : Place) (node : Node) (ns : List (Place × Node)) :
    find q (putNode place node ns) = if q = place then some node else find q ns := by
  induction ns with
  | nil =>
    by_cases hq : q = place
    · subst hq
      simp [putNode, find]
    · simp [putNode, find, hq, Ne.symm hq]
  | cons m ns ih =>
    obtain ⟨r, old⟩ := m
    by_cases hr : r = place
    · subst hr
      by_cases hq : q = r
      · subst hq
        simp [putNode, find]
      · simp [putNode, find, hq, Ne.symm hq]
    · simp only [putNode, if_neg hr, find, ih]
      by_cases hq : q = place
      · subst hq
        simp [hr]
      · simp [hq]

theorem get?_put (hplace : place ≠ []) (q : Place) :
    (t.put place node).get? q = if q = place then some node else t.get? q := by
  by_cases hq : q = []
  · subst hq
    simp [get?, Ne.symm hplace]
  · rw [get?, get?, if_neg hq, if_neg hq, put, find_putNode]

theorem find_filter_ne (place q : Place) (ns : List (Place × Node)) :
    find q (ns.filter fun m => m.1 ≠ place) = if q = place then none else find q ns := by
  induction ns with
  | nil => simp [find]
  | cons m ns ih =>
    obtain ⟨r, old⟩ := m
    by_cases hr : r = place
    · subst hr
      rw [List.filter_cons_of_neg (by simp), ih, find]
      by_cases hq : q = r
      · simp [hq]
      · simp [hq, Ne.symm hq]
    · rw [List.filter_cons_of_pos (by simpa using hr), find, find, ih]
      by_cases hq : q = place
      · subst hq
        simp [hr]
      · simp [hq]

theorem get?_erase (hplace : place ≠ []) (q : Place) :
    (t.erase place).get? q = if q = place then none else t.get? q := by
  by_cases hq : q = []
  · subst hq
    simp [get?, Ne.symm hplace]
  · rw [get?, get?, if_neg hq, if_neg hq, erase, find_filter_ne]

instance (n : Text) : Decidable (IsName n) :=
  decidable_of_iff
    (IsProper n ∧ '/' ∉ n ∧ n.any (·.toNat = 0) = false ∧ (Component.normal n).Fits)
    ⟨fun ⟨hproper, hslash, hnul, hfits⟩ => ⟨hproper, hslash, hnul, hfits⟩,
      fun h => ⟨h.proper, h.no_slash, h.no_nul, h.fits⟩⟩

/-- Every node stands in a directory, under a name. -/
structure WellFormed (t : FileTree) : Prop where
  inside : ∀ {place n}, (t.get? (place ++ [n])).isSome → t.get? place = some .directory
  named : ∀ {place n}, (t.get? (place ++ [n])).isSome → IsName n

theorem find_isSome_iff {place : Place} {ns : List (Place × Node)} :
    (find place ns).isSome ↔ ∃ node, (place, node) ∈ ns := by
  induction ns with
  | nil => simp [find]
  | cons m ns ih =>
    obtain ⟨r, old⟩ := m
    rw [find]
    split
    · rename_i hr
      rw [← hr.2]
      exact iff_of_true rfl ⟨old, List.mem_cons_self⟩
    · rename_i hr
      have hne : ∀ node, (place, node) ≠ (r, old) := by
        intro node heq
        obtain ⟨rfl, _⟩ := Prod.mk.inj heq
        exact hr ⟨rfl, rfl⟩
      simp [ih, hne]

theorem wellFormed_of_nodes
    (h : ∀ m ∈ t.nodes, t.get? m.1.dropLast = some .directory ∧ ∀ n ∈ m.1.getLast?, IsName n) :
    t.WellFormed := by
  have hentry : ∀ {place n}, (t.get? (place ++ [n])).isSome →
      t.get? place = some .directory ∧ IsName n := by
    intro place n hsome
    rw [get?, if_neg (by simp)] at hsome
    obtain ⟨node, hnode⟩ := find_isSome_iff.1 hsome
    have hm := h _ hnode
    rw [List.dropLast_concat, List.getLast?_concat] at hm
    exact ⟨hm.1, hm.2 n rfl⟩
  exact ⟨fun hsome => (hentry hsome).1, fun hsome => (hentry hsome).2⟩

namespace WellFormed
variable (ht : t.WellFormed)
include ht

theorem isEntered (h : t.get? place = some .directory) : t.IsEntered place := by
  induction place using List.reverseRecOn with
  | nil => exact isEntered_nil t
  | append_singleton place n ih =>
    have hsome : (t.get? (place ++ [n])).isSome := by
      rw [h]
      rfl
    exact (ih (ht.inside hsome)).concat (ht.named hsome) h

theorem dropLast (h : t.get? place = some .directory) :
    t.get? place.dropLast = some .directory :=
  (ht.isEntered h).directories _ (List.dropLast_prefix place)

/-- A file is an entry of a directory. -/
theorem exists_of_file (h : t.get? place = some (.file c)) :
    ∃ dir n, place = dir ++ [n] ∧ t.get? dir = some .directory ∧ IsName n := by
  rcases List.eq_nil_or_concat place with rfl | ⟨dir, n, rfl⟩
  · cases h
  · rw [List.concat_eq_append] at h ⊢
    have hsome : (t.get? (dir ++ [n])).isSome := by
      rw [h]
      rfl
    exact ⟨dir, n, rfl, ht.inside hsome, ht.named hsome⟩

theorem put (hdir : t.get? dir = some .directory) (hn : IsName n)
    (hold : t.get? (dir ++ [n]) = some .directory → node = .directory) :
    (t.put (dir ++ [n]) node).WellFormed := by
  have hget : ∀ q, (t.put (dir ++ [n]) node).get? q = if q = dir ++ [n] then some node
      else t.get? q := get?_put (List.concat_ne_nil n dir)
  have hentry : ∀ {place m}, ((t.put (dir ++ [n]) node).get? (place ++ [m])).isSome →
      place = dir ∧ m = n ∨ (t.get? (place ++ [m])).isSome := by
    intro place m hsome
    rw [hget] at hsome
    split at hsome
    · rename_i heq
      obtain ⟨hplace, hm⟩ := List.append_inj' heq rfl
      exact .inl ⟨hplace, List.singleton_inj.1 hm⟩
    · exact .inr hsome
  constructor
  · intro place m hsome
    have hplace : t.get? place = some .directory := by
      rcases hentry hsome with ⟨rfl, rfl⟩ | hsome
      · exact hdir
      · exact ht.inside hsome
    rw [hget]
    split
    · rename_i heq
      rw [heq] at hplace
      rw [hold hplace]
    · exact hplace
  · intro place m hsome
    rcases hentry hsome with ⟨_, rfl⟩ | hsome
    · exact hn
    · exact ht.named hsome

theorem erase (hplace : place ≠ []) (h : t.get? place ≠ some .directory) :
    (t.erase place).WellFormed := by
  have hget := get?_erase (t := t) hplace
  have hentry : ∀ {q m}, ((t.erase place).get? (q ++ [m])).isSome →
      (t.get? (q ++ [m])).isSome := by
    intro q m hsome
    rw [hget] at hsome
    split at hsome
    · cases hsome
    · exact hsome
  constructor
  · intro q m hsome
    have hq := ht.inside (hentry hsome)
    rw [hget, if_neg]
    · exact hq
    · rintro rfl
      exact h hq
  · exact fun hsome => ht.named (hentry hsome)

end WellFormed

/-- Nothing is gone, and whatever is new is a directory. -/
def Grows (t u : FileTree) : Prop :=
  ∀ q, u.get? q = t.get? q ∨ t.get? q = none ∧ u.get? q = some .directory

namespace Grows

theorem refl (t : FileTree) : t.Grows t := fun _ => .inl rfl

theorem trans (htu : t.Grows u) (huv : u.Grows v) : t.Grows v := by
  intro q
  rcases huv q with hv | ⟨hu, hv⟩
  · rw [hv]
    exact htu q
  · rcases htu q with hq | ⟨_, hq⟩
    · exact .inr ⟨hq ▸ hu, hv⟩
    · rw [hu] at hq
      cases hq

theorem put (h : t.get? (dir ++ [n]) = none) : t.Grows (t.put (dir ++ [n]) .directory) := by
  intro q
  rw [get?_put (List.concat_ne_nil n dir)]
  split
  · rename_i hq
    rw [hq]
    exact .inr ⟨h, rfl⟩
  · exact .inl rfl

theorem directory (h : t.Grows u) (hq : t.get? q = some .directory) :
    u.get? q = some .directory := by
  rcases h q with hu | ⟨_, hu⟩
  · rw [hu, hq]
  · exact hu

theorem file_iff (h : t.Grows u) : u.get? q = some (.file c) ↔ t.get? q = some (.file c) := by
  rcases h q with hu | ⟨hq, hu⟩
  · rw [hu]
  · rw [hu, hq]
    simp

end Grows

theorem Passes.mono {cs : List Component} (h : t.Passes place cs)
    (hdirs : ∀ q, t.get? q = some .directory → u.get? q = some .directory) :
    u.Passes place cs := by
  induction cs generalizing place with
  | nil => exact hdirs _ h
  | cons c cs ih => exact ⟨hdirs _ h.1, h.2.1, ih h.2.2⟩

end Literate.FileTree
