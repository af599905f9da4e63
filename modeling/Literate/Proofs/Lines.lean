import Literate.Text.Basic
import Mathlib.Data.List.Basic

/-!
# Lines

Joining lines and cutting a text into lines undo each other where no line holds a line feed or ends
in a carriage return. Cutting at a character is the cut of the standard library, so its laws apply.
-/

namespace Literate.Text

theorem splitOn_eq (sep : Char) (t : Text) : splitOn sep t = List.splitOn sep t := by
  induction t with
  | nil => rfl
  | cons c cs ih =>
    rw [splitOn, ih, List.splitOn_cons_eq_if_modifyHead]
    by_cases hc : c = sep
    · simp [hc]
    · obtain ⟨p, ps, hps⟩ := List.exists_cons_of_ne_nil (List.splitOn_ne_nil sep cs)
      simp [hc, hps]

theorem splitOn_ne_nil (sep : Char) (t : Text) : splitOn sep t ≠ [] :=
  splitOn_eq sep t ▸ List.splitOn_ne_nil sep t

theorem splitOn_append_cons (sep : Char) (s t : Text) :
    splitOn sep (s ++ sep :: t) = splitOn sep s ++ splitOn sep t := by
  simp only [splitOn_eq, List.splitOn_append_cons_self]

theorem not_mem_of_mem_splitOn {sep : Char} {t p : Text} (h : p ∈ splitOn sep t) : sep ∉ p := by
  induction t generalizing p with
  | nil =>
    cases List.mem_singleton.1 h
    exact List.not_mem_nil
  | cons c cs ih =>
    rw [splitOn] at h
    split at h
    · rcases List.mem_cons.1 h with rfl | h
      · exact List.not_mem_nil
      · exact ih h
    · rename_i hc
      have hc' : sep ≠ c := fun h => hc h.symm
      split at h
      · cases List.mem_singleton.1 h
        simpa using hc'
      · rename_i q qs hqs
        rcases List.mem_cons.1 h with rfl | h
        · have hq := ih (p := q) (by simp [hqs])
          simp [hc', hq]
        · exact ih (by simp [hqs, h])

theorem mem_of_mem_splitOn {sep c : Char} {t p : Text} (h : p ∈ splitOn sep t) (hc : c ∈ p) :
    c ∈ t := by
  have hmem : ∀ ps : List Text, p ∈ ps → c ∈ [sep].intercalate ps := by
    intro ps hp
    induction ps with
    | nil => cases hp
    | cons q ps ih =>
      by_cases hps : ps = []
      · subst hps
        rw [List.intercalate_singleton, ← List.mem_singleton.1 hp]
        exact hc
      · rw [List.intercalate_cons_of_ne_nil hps]
        rcases List.mem_cons.1 hp with rfl | hp
        · simp [hc]
        · simp [ih hp]
  have := hmem _ h
  rwa [splitOn_eq, List.intercalate_splitOn] at this

theorem exists_mem_splitOn {sep c : Char} {t : Text} (hc : c ∈ t) (hne : c ≠ sep) :
    ∃ p ∈ splitOn sep t, c ∈ p := by
  induction t with
  | nil => cases hc
  | cons d ds ih =>
    rw [splitOn]
    split
    · rename_i hd
      rcases List.mem_cons.1 hc with rfl | hc
      · exact absurd hd hne
      · obtain ⟨p, hp, hcp⟩ := ih hc
        exact ⟨p, List.mem_cons_of_mem _ hp, hcp⟩
    · obtain ⟨first, ps, hfirst⟩ := List.exists_cons_of_ne_nil (splitOn_ne_nil sep ds)
      rw [hfirst]
      rcases List.mem_cons.1 hc with rfl | hc
      · exact ⟨c :: first, List.mem_cons_self, List.mem_cons_self⟩
      · obtain ⟨p, hp, hcp⟩ := ih hc
        rw [hfirst] at hp
        rcases List.mem_cons.1 hp with rfl | hp
        · exact ⟨d :: p, List.mem_cons_self, List.mem_cons_of_mem _ hcp⟩
        · exact ⟨p, List.mem_cons_of_mem _ hp, hcp⟩

theorem unlines_splitOn (t : Text) : unlines (splitOn '\n' t) = t := by
  rw [unlines, splitOn_eq, List.intercalate_splitOn]

theorem length_splitOn (sep : Char) (t : Text) : (splitOn sep t).length = t.count sep + 1 := by
  induction t with
  | nil => rfl
  | cons c cs ih =>
    rw [splitOn]
    split
    · rename_i hc
      rw [List.length_cons, ih, hc, List.count_cons_self]
    · rename_i hc
      rw [List.count_cons_of_ne hc, ← ih]
      split
      · rename_i h
        exact absurd h (splitOn_ne_nil sep cs)
      · rename_i h
        rw [h]
        rfl

section Joining
variable {l : Text} {ls ks : List Text}

@[simp] theorem unlines_singleton (l : Text) : unlines [l] = l :=
  List.intercalate_singleton

theorem unlines_cons (h : ls ≠ []) : unlines (l :: ls) = l ++ '\n' :: unlines ls := by
  rw [unlines, List.intercalate_cons_of_ne_nil h, List.append_assoc]
  rfl

theorem unlines_append (hls : ls ≠ []) (hks : ks ≠ []) :
    unlines (ls ++ ks) = unlines ls ++ '\n' :: unlines ks := by
  induction ls with
  | nil => exact absurd rfl hls
  | cons l ls ih =>
    by_cases hnil : ls = []
    · subst hnil
      rw [List.singleton_append, unlines_cons hks, unlines_singleton]
    · rw [List.cons_append, unlines_cons (by simp [hnil]), ih hnil, unlines_cons hnil]
      simp

/-- Joining in two steps is joining at once. -/
theorem unlines_map_unlines {lss : List (List Text)} (h : ∀ ls ∈ lss, ls ≠ []) :
    unlines (lss.map unlines) = unlines lss.flatten := by
  induction lss with
  | nil => rfl
  | cons ls lss ih =>
    have hrest : ∀ ls ∈ lss, ls ≠ [] := fun ls hls => h ls (List.mem_cons_of_mem _ hls)
    cases lss with
    | nil => simp
    | cons ks lss =>
      have hflat : (ks :: lss).flatten ≠ [] := by
        have := hrest ks List.mem_cons_self
        simp [this]
      calc unlines ((ls :: ks :: lss).map unlines)
          = unlines ls ++ '\n' :: unlines ((ks :: lss).map unlines) := unlines_cons (by simp)
        _ = unlines ls ++ '\n' :: unlines (ks :: lss).flatten := by rw [ih hrest]
        _ = unlines (ls ++ (ks :: lss).flatten) :=
          (unlines_append (h ls List.mem_cons_self) hflat).symm

end Joining

/-- A text that comes back as it is when it is written as a line. -/
def IsLine (l : Text) : Prop :=
  '\n' ∉ l ∧ l.getLast? ≠ some '\r'

theorem rows_append_cons {l : Text} (h : '\n' ∉ l) (rest : Text) :
    rows (l ++ '\n' :: rest) = (l ++ ['\n']) :: rows rest := by
  induction l with
  | nil => simp [rows]
  | cons c l ih =>
    obtain ⟨hc, hl⟩ : '\n' ≠ c ∧ '\n' ∉ l := by simpa using h
    rw [List.cons_append, rows, if_neg fun h => hc h.symm, ih hl]
    rfl

theorem rows_of_not_mem {l : Text} (h : '\n' ∉ l) (hl : l ≠ []) : rows l = [l] := by
  induction l with
  | nil => exact absurd rfl hl
  | cons c l ih =>
    obtain ⟨hc, hrest⟩ : '\n' ≠ c ∧ '\n' ∉ l := by simpa using h
    rw [rows, if_neg fun h => hc h.symm]
    by_cases hnil : l = []
    · rw [hnil, rows_nil]
    · rw [ih hrest hnil]

theorem lines_append_cons {l : Text} (h : IsLine l) (rest : Text) :
    lines (l ++ '\n' :: rest) = l :: lines rest := by
  have hchomp : chomp (l ++ ['\n']) = l := by
    simp [chomp, dropEnd, h.2]
  rw [lines, rows_append_cons h.1, List.map_cons, hchomp, lines]

theorem lines_of_isLine {l : Text} (h : IsLine l) (hl : l ≠ []) : lines l = [l] := by
  have hlast : l.getLast? ≠ some '\n' := fun hlast => h.1 (List.mem_of_getLast? hlast)
  rw [lines, rows_of_not_mem h.1 hl, List.map_singleton, chomp, if_neg hlast]

theorem lines_unlines_newline {ls : List Text} (h : ∀ l ∈ ls, IsLine l) (hls : ls ≠ []) :
    lines (unlines ls ++ ['\n']) = ls := by
  induction ls with
  | nil => exact absurd rfl hls
  | cons l ls ih =>
    have hl := h l List.mem_cons_self
    have hrest : ∀ l ∈ ls, IsLine l := fun l hl => h l (List.mem_cons_of_mem _ hl)
    by_cases hnil : ls = []
    · subst hnil
      rw [unlines_singleton, lines_append_cons hl]
      rfl
    · rw [unlines_cons hnil, List.append_assoc, List.cons_append, lines_append_cons hl,
        ih hrest hnil]

theorem lines_unlines {ls : List Text} (h : ∀ l ∈ ls, IsLine l)
    (hlast : ls.getLast? ≠ some []) : lines (unlines ls) = ls := by
  induction ls with
  | nil => rfl
  | cons l ls ih =>
    have hl := h l List.mem_cons_self
    have hrest : ∀ l ∈ ls, IsLine l := fun l hl => h l (List.mem_cons_of_mem _ hl)
    by_cases hnil : ls = []
    · subst hnil
      have hne : l ≠ [] := by simpa using hlast
      rw [unlines_singleton, lines_of_isLine hl hne]
    · have hlast' : ls.getLast? ≠ some [] := by
        rwa [List.getLast?_cons_of_ne_nil hnil] at hlast
      rw [unlines_cons hnil, lines_append_cons hl, ih hrest hlast']

end Literate.Text
