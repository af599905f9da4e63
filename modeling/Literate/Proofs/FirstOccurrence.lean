import Literate.Store
import Mathlib.Data.List.Induction
import Mathlib.Data.List.Nodup

/-!
# Order of first occurrence

Names, sections and files are kept in the order in which they first occur. For names this is
`List.eraseDups`. For sections and files, which are changed in place under their name, `upsert` is
the one operation behind both, and on a list made from distinct names it is a change of the map.
-/

namespace Literate

section Distinct
variable {α : Type} [BEq α] [LawfulBEq α]

theorem eraseDups_concat (l : List α) (a : α) :
    (l ++ [a]).eraseDups = if a ∈ l then l.eraseDups else l.eraseDups ++ [a] := by
  rw [List.eraseDups_append, List.cons_removeAll]
  by_cases h : a ∈ l
  · simp [h]
  · simp [h, List.eraseDups_cons]

theorem nodup_eraseDups (l : List α) : l.eraseDups.Nodup := by
  induction l using List.reverseRecOn with
  | nil => simp
  | append_singleton l a ih =>
    rw [eraseDups_concat]
    split
    · exact ih
    · rename_i ha
      apply List.nodup_append.2
      refine ⟨ih, List.nodup_singleton a, ?_⟩
      intro b hb c hc hbc
      rw [List.mem_singleton.1 hc] at hbc
      exact ha (hbc ▸ List.mem_eraseDups.1 hb)

theorem eraseDups_append_eraseDups (l ns : List α) :
    (l ++ ns.eraseDups).eraseDups = (l ++ ns).eraseDups := by
  induction ns using List.reverseRecOn with
  | nil => rfl
  | append_singleton ns n ih =>
    rw [eraseDups_concat, ← List.append_assoc, eraseDups_concat (l ++ ns)]
    by_cases hn : n ∈ ns
    · simp [hn, ih]
    · rw [if_neg hn, ← List.append_assoc, eraseDups_concat, ih]
      simp only [List.mem_append, List.mem_eraseDups]

end Distinct

theorem Marker.eraseDups_append_distinctAfter {seen l : List SectionName}
    (hseen : ∀ n, n ∈ seen ↔ n ∈ l) (ns : List SectionName) :
    l.eraseDups ++ distinctAfter seen ns = (l ++ ns).eraseDups := by
  induction ns generalizing seen l with
  | nil => simp [distinctAfter]
  | cons n ns ih =>
    rw [List.append_cons l n ns, distinctAfter]
    by_cases hn : n ∈ seen
    · have hsame : ∀ m, m ∈ seen ↔ m ∈ l ++ [n] := by
        intro m
        rw [hseen, List.mem_append, List.mem_singleton]
        constructor
        · exact .inl
        · rintro (hm | rfl)
          · exact hm
          · exact (hseen m).1 hn
      rw [if_pos hn, ← ih hsame, eraseDups_concat, if_pos ((hseen n).1 hn)]
    · have hmore : ∀ m, m ∈ n :: seen ↔ m ∈ l ++ [n] := by
        intro m
        rw [List.mem_cons, hseen, List.mem_append, List.mem_singleton, or_comm]
      rw [if_neg hn, ← ih hmore, eraseDups_concat, if_neg fun h => hn ((hseen n).2 h)]
      simp

theorem Marker.references_eq (t : Text) : references t = (names t).eraseDups := by
  have hnone : ∀ n : SectionName, n ∈ [] ↔ n ∈ [] := fun _ => .rfl
  exact eraseDups_append_distinctAfter hnone (names t)

theorem Section.addChildren_eraseDups (l ns : List SectionName) :
    addChildren l.eraseDups ns = (l ++ ns).eraseDups := by
  induction ns generalizing l with
  | nil => simp [addChildren]
  | cons n ns ih =>
    rw [addChildren, List.append_cons l n ns, ← ih (l ++ [n]), eraseDups_concat]
    simp only [List.mem_eraseDups]

section Upsert
variable {κ β : Type} [DecidableEq κ]

/-- Changes the first entry under the key `k`; a missing one starts as `new`, at the end. -/
def upsert (key : β → κ) (k : κ) (new : β) (change : β → β) : List β → List β
  | [] => [change new]
  | b :: bs => if key b = k then change b :: bs else b :: upsert key k new change bs

section Map
variable {key : β → κ} {k : κ} {new : β} {change : β → β} {g g' : κ → β} {ks : List κ}

theorem upsert_map_of_not_mem (hkey : ∀ j, key (g j) = j) (hk : k ∉ ks) :
    upsert key k new change (ks.map g) = ks.map g ++ [change new] := by
  induction ks with
  | nil => rfl
  | cons j ks ih =>
    have hjk : j ≠ k := (List.ne_of_not_mem_cons hk).symm
    rw [List.map_cons, upsert, hkey, if_neg hjk, ih (List.not_mem_of_not_mem_cons hk),
      List.cons_append]

theorem upsert_map_of_mem (hkey : ∀ j, key (g j) = j) (hother : ∀ j, j ≠ k → g' j = g j)
    (hchange : g' k = change (g k)) (hnodup : ks.Nodup) (hk : k ∈ ks) :
    upsert key k new change (ks.map g) = ks.map g' := by
  induction ks with
  | nil => cases hk
  | cons j ks ih =>
    obtain ⟨hj, hnodup⟩ := List.nodup_cons.1 hnodup
    rw [List.map_cons, List.map_cons, upsert, hkey]
    rcases List.mem_cons.1 hk with rfl | hk
    · have hrest : ks.map g' = ks.map g := by
        apply List.map_congr_left
        intro i hi
        exact hother i fun hik => hj (hik ▸ hi)
      rw [if_pos rfl, hchange, hrest]
    · have hjk : j ≠ k := fun h => hj (h ▸ hk)
      rw [if_neg hjk, hother j hjk, ih hnodup hk]

/-- A change under one key of a list made from distinct keys is a change of the map there. -/
theorem upsert_map_eraseDups [BEq κ] [LawfulBEq κ] (key : β → κ) (change : β → β)
    (hkey : ∀ j, key (g j) = j) (hother : ∀ j, j ≠ k → g' j = g j)
    (hchange : g' k = change (g k)) (hnew : k ∉ ks → g k = new) :
    upsert key k new change (ks.eraseDups.map g) = (ks ++ [k]).eraseDups.map g' := by
  rw [eraseDups_concat]
  by_cases hk : k ∈ ks
  · rw [if_pos hk]
    exact upsert_map_of_mem hkey hother hchange (nodup_eraseDups ks) (List.mem_eraseDups.2 hk)
  · have hk' : k ∉ ks.eraseDups := fun h => hk (List.mem_eraseDups.1 h)
    have hrest : ks.eraseDups.map g' = ks.eraseDups.map g := by
      apply List.map_congr_left
      intro i hi
      exact hother i fun hik => hk' (hik ▸ hi)
    rw [if_neg hk, upsert_map_of_not_mem hkey hk', List.map_append, List.map_singleton, hchange,
      hnew hk, hrest]

end Map

theorem find?_upsert {key : β → κ} {k : κ} {new : β} {change : β → β} (hnew : key new = k)
    (hchange : ∀ b, key (change b) = key b) (j : κ) (bs : List β) :
    (upsert key k new change bs).find? (fun b => key b = j) =
      if j = k then some (change ((bs.find? fun b => key b = k).getD new))
      else bs.find? fun b => key b = j := by
  induction bs with
  | nil =>
    rw [upsert, List.find?_cons, hchange, hnew]
    by_cases hj : j = k
    · simp [hj]
    · simp [hj, Ne.symm hj]
  | cons b bs ih =>
    by_cases hb : key b = k
    · rw [upsert, if_pos hb, List.find?_cons, hchange, hb]
      by_cases hj : j = k
      · simp [hj, hb]
      · simp [hj, Ne.symm hj, hb]
    · rw [upsert, if_neg hb, List.find?_cons, ih]
      by_cases hj : j = k
      · simp [hj, hb]
      · simp [hj, List.find?_cons]

theorem updateFiles_eq_upsert (name : Text) (change : CodeFile → CodeFile) (fs : List CodeFile) :
    Store.updateFiles name change fs = upsert CodeFile.name name (.empty name) change fs := by
  induction fs with
  | nil => rfl
  | cons f fs ih => rw [Store.updateFiles, upsert, ih]

theorem updateSections_eq_upsert (file : Text) (name : SectionName) (change : Section → Section)
    (ss : List Section) :
    CodeFile.updateSections file name change ss =
      upsert Section.name name (.empty file name) change ss := by
  induction ss with
  | nil => rfl
  | cons s ss ih => rw [CodeFile.updateSections, upsert, ih]

end Upsert

end Literate
