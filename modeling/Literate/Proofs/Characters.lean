import Literate.Label
import Mathlib.Data.List.TakeWhile

/-!
# Classes of characters

Scanners read runs of a class of characters, and a run ends where a character of another class
follows. So what has to be known about the classes is which of them have no character in common.
For section names and white space, which both are tables of ranges, this is a check of the tables.
-/

namespace Literate

theorem eq_of_append_cons {α : Type} {a : α} {s s' rest rest' : List α} (hs : a ∉ s) (hs' : a ∉ s')
    (h : s ++ a :: rest = s' ++ a :: rest') : s = s' ∧ rest = rest' := by
  rcases List.append_eq_append_iff.1 h with ⟨u, rfl, hu⟩ | ⟨u, rfl, hu⟩
  · cases u with
    | nil => exact ⟨by simp, by simpa using hu⟩
    | cons b u =>
      cases hu
      exact absurd (by simp) hs'
  · cases u with
    | nil => exact ⟨by simp, by simpa using hu.symm⟩
    | cons b u =>
      cases hu
      exact absurd (by simp) hs

section Runs
variable {p : Char → Bool} {run rest : Text}

theorem takeWhile_run (chars : ∀ c ∈ run, p c = true) (stop : ∀ c ∈ rest.head?, p c = false) :
    (run ++ rest).takeWhile p = run := by
  rw [List.takeWhile_append_of_pos chars]
  cases rest with
  | nil => simp
  | cons c rest => simp [stop c rfl]

theorem dropWhile_run (chars : ∀ c ∈ run, p c = true) (stop : ∀ c ∈ rest.head?, p c = false) :
    (run ++ rest).dropWhile p = rest := by
  rw [List.dropWhile_append_of_pos chars]
  cases rest with
  | nil => rfl
  | cons c rest => simp [stop c rfl]

theorem not_mem_of_class (chars : ∀ c ∈ run, p c = true) {d : Char} (hd : p d = false) :
    d ∉ run := by
  intro hmem
  rw [chars d hmem] at hd
  cases hd

theorem head?_of_class {q : Char → Bool} (chars : ∀ c ∈ run, q c = true)
    (hdisjoint : ∀ c, q c = true → p c = false) : ∀ c ∈ run.head?, p c = false :=
  fun c hc => hdisjoint c (chars c (List.mem_of_mem_head? hc))

end Runs

def whiteRanges : List (Nat × Nat) :=
  [(9, 13), (0x20, 0x20), (0x85, 0x85), (0xA0, 0xA0), (0x1680, 0x1680), (0x2000, 0x200A),
    (0x2028, 0x2028), (0x2029, 0x2029), (0x202F, 0x202F), (0x205F, 0x205F), (0x3000, 0x3000)]

theorem isWhite_eq_inRanges (c : Char) : isWhite c = inRanges whiteRanges c.toNat := by
  rw [Bool.eq_iff_iff]
  simp only [isWhite, inRanges, whiteRanges, List.any_cons, List.any_nil, Bool.or_eq_true,
    Bool.and_eq_true, decide_eq_true_eq, beq_iff_eq, Nat.le_antisymm_iff, Bool.false_eq_true,
    or_false, or_assoc, and_comm]

/-- No range of the one list meets a range of the other. -/
def apart (rs ss : List (Nat × Nat)) : Bool :=
  rs.all fun r => ss.all fun s => r.2 < s.1 || s.2 < r.1

theorem inRanges_eq_false_of_apart {rs ss : List (Nat × Nat)} {n : Nat} (h : apart rs ss = true)
    (hn : inRanges rs n = true) : inRanges ss n = false := by
  simp only [apart, List.all_eq_true, Bool.or_eq_true, decide_eq_true_eq] at h
  simp only [inRanges, List.any_eq_true, List.any_eq_false, Bool.and_eq_true,
    decide_eq_true_eq] at hn ⊢
  obtain ⟨r, hr, hlow, hhigh⟩ := hn
  intro s hs hs'
  have := h r hr s hs
  omega

/-- No character of a section name is white space. -/
theorem isSectionChar_of_isWhite {c : Char} (h : isWhite c = true) : isSectionChar c = false := by
  -- the table of letters and digits starts beyond ASCII
  by_cases hc : c.toNat < 128
  · have hascii : ∀ n ∈ List.range 128,
        (isWhite (Char.ofNat n) && isSectionChar (Char.ofNat n)) = false := by
      decide +kernel
    have hn := hascii c.toNat (List.mem_range.2 hc)
    rw [Char.ofNat_toNat, h] at hn
    exact hn
  · have hapart : apart whiteRanges alphanumericRanges = true := by decide +kernel
    have halpha : isAlphanumeric c = false := by
      rw [isWhite_eq_inRanges] at h
      rw [isAlphanumeric, if_neg hc, inRanges_eq_false_of_apart hapart h]
    have hne : ∀ d : Char, d.toNat < 128 → (c == d) = false := by
      intro d hd
      rw [beq_eq_false_iff_ne]
      rintro rfl
      exact hc hd
    simp (disch := decide) only [isSectionChar, halpha, hne, Bool.or_self]

/-- The text can stand as the name of a section. -/
def IsSectionText (n : Text) : Prop :=
  n ≠ [] ∧ ∀ c ∈ n, isSectionChar c = true

theorem isWhite_of_isBlank {c : Char} (h : isBlank c = true) : isWhite c = true := by
  simp only [isBlank, Bool.or_eq_true, beq_iff_eq] at h
  rcases h with ((rfl | rfl) | rfl) | rfl <;> decide

theorem isSectionChar_of_isBlank {c : Char} (h : isBlank c = true) : isSectionChar c = false :=
  isSectionChar_of_isWhite (isWhite_of_isBlank h)

theorem isFileChar_of_isBlank {c : Char} (h : isBlank c = true) : isFileChar c = false := by
  simp [isFileChar, isWhite_of_isBlank h]

theorem isBlank_of_isFileChar {c : Char} (h : isFileChar c = true) : isBlank c = false := by
  by_contra hblank
  rw [isFileChar_of_isBlank (by simpa using hblank)] at h
  cases h

end Literate
