import Literate.Proofs.Characters

/-!
# Trimming

A text has one trimmed core: it is put between white space in only one way, up to the white space
around an empty core. Trimming finds the core, and trimming the end leaves a text that is followed
by white space only.
-/

namespace Literate.Text

/-- Neither the first nor the last character is white space. -/
structure IsTrimmed (t : Text) : Prop where
  head : ∀ c ∈ t.head?, isWhite c = false
  last : ∀ c ∈ t.getLast?, isWhite c = false

variable {t w w' d d' v v' : Text}

theorem isTrimmed_of_forall (h : ∀ c ∈ t, isWhite c = false) : IsTrimmed t where
  head := fun c hc => h c (List.mem_of_mem_head? hc)
  last := fun c hc => h c (List.mem_of_getLast? hc)

theorem trimEnd_append_white (hw : ∀ c ∈ w, isWhite c = true) (t : Text) :
    trimEnd (t ++ w) = trimEnd t := by
  have hreverse : ∀ c ∈ w.reverse, isWhite c = true := by
    intro c hc
    exact hw c (List.mem_reverse.1 hc)
  rw [trimEnd, List.reverse_append, List.dropWhile_append_of_pos hreverse, trimEnd]

theorem trimEnd_eq_self (h : ∀ c ∈ t.getLast?, isWhite c = false) : trimEnd t = t := by
  have hfirst : ∀ c ∈ t.reverse.head?, isWhite c = false := by
    intro c hc
    rw [List.head?_reverse] at hc
    exact h c hc
  have hdrop : ([] ++ t.reverse).dropWhile isWhite = t.reverse :=
    dropWhile_run (List.forall_mem_nil _) hfirst
  rw [List.nil_append] at hdrop
  rw [trimEnd, hdrop, List.reverse_reverse]

theorem isWhite_of_getLast?_trimEnd {c : Char} (h : (trimEnd t).getLast? = some c) :
    isWhite c = false := by
  rw [trimEnd, List.getLast?_reverse] at h
  have hstop := List.head?_dropWhile_not isWhite t.reverse
  rw [h] at hstop
  exact hstop

theorem isWhite_of_getLast?_trim {c : Char} (h : (trim t).getLast? = some c) :
    isWhite c = false :=
  isWhite_of_getLast?_trimEnd h

/-- What is cut off at the end is white space. -/
theorem exists_eq_trimEnd_append (t : Text) :
    ∃ w, t = trimEnd t ++ w ∧ ∀ c ∈ w, isWhite c = true := by
  refine ⟨(t.reverse.takeWhile isWhite).reverse, ?_, ?_⟩
  · rw [trimEnd, ← List.reverse_append, List.takeWhile_append_dropWhile, List.reverse_reverse]
  · intro c hc
    exact List.mem_takeWhile_imp (List.mem_reverse.1 hc)

theorem trim_append_white (hw : ∀ c ∈ w, isWhite c = true) (t : Text) :
    trim (t ++ w) = trim t := by
  unfold trim trimStart
  rw [List.dropWhile_append]
  split
  · rename_i hempty
    rw [List.isEmpty_iff.1 hempty, List.dropWhile_eq_nil_iff.2 hw]
  · exact trimEnd_append_white hw _

theorem trim_white_append (hw : ∀ c ∈ w, isWhite c = true) (t : Text) :
    trim (w ++ t) = trim t := by
  rw [trim, trimStart, List.dropWhile_append_of_pos hw, trim, trimStart]

theorem trim_between (hw : ∀ c ∈ w, isWhite c = true) (hw' : ∀ c ∈ w', isWhite c = true)
    (hd : IsTrimmed d) : trim (w ++ d ++ w') = d := by
  have hstart : trimStart (w ++ d) = d := dropWhile_run hw hd.head
  rw [trim_append_white hw', trim, hstart, trimEnd_eq_self hd.last]

theorem trim_eq_self (h : IsTrimmed t) : trim t = t := by
  have hbetween : trim ([] ++ t ++ []) = t :=
    trim_between (List.forall_mem_nil _) (List.forall_mem_nil _) h
  rwa [List.nil_append, List.append_nil] at hbetween

/-- A text has one core, and as much white space around it in every way to write it. -/
theorem eq_of_between (hw : ∀ c ∈ w, isWhite c = true) (hw' : ∀ c ∈ w', isWhite c = true)
    (hd : IsTrimmed d) (hv : ∀ c ∈ v, isWhite c = true) (hv' : ∀ c ∈ v', isWhite c = true)
    (hd' : IsTrimmed d') (h : w ++ d ++ w' = v ++ d' ++ v') : d = d' ∧ w ++ w' = v ++ v' := by
  have hcore : d = d' := by
    rw [← trim_between hw hw' hd, h, trim_between hv hv' hd']
  subst hcore
  refine ⟨rfl, ?_⟩
  cases d with
  | nil => simpa using h
  | cons c d =>
    -- the white space in front ends at the first character of the core
    have hstop : ∀ u : Text, ∀ b ∈ (c :: d ++ u).head?, isWhite b = false := by
      intro u b hb
      exact hd.head b hb
    rw [List.append_assoc, List.append_assoc] at h
    have hfront : w = v := by
      rw [← takeWhile_run hw (hstop w'), h, takeWhile_run hv (hstop v')]
    subst hfront
    rw [List.append_cancel_left (List.append_cancel_left h)]

end Literate.Text
