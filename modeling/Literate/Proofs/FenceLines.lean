import Literate.Fence
import Literate.Proofs.Characters

/-!
# The lines that open and close a fence

A line opens a fence if it has the written form of an opening, and closes it if nothing but enough
of its marks is left after trimming. What is read off an opening line is determined by the line.
-/

namespace Literate

namespace Text

theorem stripStart_eq (start t : Text) :
    stripStart start t = if start <+: t then some (t.drop start.length) else none := by
  induction start generalizing t with
  | nil => simp [stripStart]
  | cons p ps ih =>
    cases t with
    | nil => simp [stripStart]
    | cons c cs =>
      rw [stripStart, ih]
      by_cases hpc : p = c
      · simp [hpc]
      · simp [hpc]

end Text

namespace Opening

/-- The line is an indentation, a run of at least three marks, and an info that does not continue
the run. The info after backticks has no backticks. -/
inductive Opens : Opening → Text → Prop where
  | intro {indent rest : Text} {mark : Char} {count : Nat}
      (indent_white : ∀ c ∈ indent, isWhite c = true) (mark_kind : mark = '`' ∨ mark = '~')
      (long : 3 ≤ count) (run_ends : rest.head? ≠ some mark)
      (no_backtick : mark = '`' → '`' ∉ rest) :
      Opens ⟨indent, mark, count, Text.trim rest⟩ (indent ++ List.replicate count mark ++ rest)

/-- Trimmed, the line is a run of marks, at least as long as that of the opening. -/
def Closes (o : Opening) (line : Text) : Prop :=
  ∃ n, o.count ≤ n ∧ Text.trim line = List.replicate n o.mark

/-- The line without the indentation, if it starts with all of it. -/
def unindent (indent line : Text) : Text :=
  if indent <+: line then line.drop indent.length else line

variable {o o' : Opening} {line : Text}

theorem isMark_iff {c : Char} : isMark c = true ↔ c = '`' ∨ c = '~' := by
  simp [isMark]

theorem isWhite_of_isMark {c : Char} (h : isMark c = true) : isWhite c = false := by
  rcases isMark_iff.1 h with rfl | rfl <;> decide

theorem ofLine?_of_opens (h : Opens o line) : ofLine? line = some o := by
  obtain ⟨indent_white, mark_kind, long, run_ends, no_backtick⟩ := h
  rename_i indent rest mark count
  obtain ⟨n, rfl⟩ : ∃ n, count = n + 1 := ⟨count - 1, by omega⟩
  have hmark := isMark_iff.2 mark_kind
  have hrun : ∀ c ∈ List.replicate n mark, decide (c = mark) = true := by
    intro c hc
    simpa using List.eq_of_mem_replicate hc
  have hstop : ∀ c ∈ rest.head?, decide (c = mark) = false := by
    intro c hc
    simp only [decide_eq_false_iff_not]
    rintro rfl
    exact run_ends hc
  have hindent : ∀ c ∈ (mark :: (List.replicate n mark ++ rest)).head?, isWhite c = false := by
    intro c hc
    cases hc
    exact isWhite_of_isMark hmark
  have hline : indent ++ List.replicate (n + 1) mark ++ rest =
      indent ++ mark :: (List.replicate n mark ++ rest) := by
    rw [List.replicate_succ, List.append_assoc, List.cons_append]
  rw [ofLine?, hline, dropWhile_run indent_white hindent, takeWhile_run indent_white hindent]
  simp only [takeWhile_run hrun hstop, dropWhile_run hrun hstop, List.length_replicate]
  exact if_pos ⟨hmark, long, fun hback => no_backtick hback.1 hback.2⟩

theorem opens_of_ofLine? (h : ofLine? line = some o) : Opens o line := by
  rw [ofLine?] at h
  split at h
  · cases h
  · rename_i c cs hcs
    dsimp only at h
    split at h
    · rename_i hif
      obtain ⟨hmark, hlong, hback⟩ := hif
      cases h
      have hrun : cs.takeWhile (· = c) = List.replicate (cs.takeWhile (· = c)).length c := by
        apply List.eq_replicate_of_mem
        intro d hd
        simpa using List.mem_takeWhile_imp hd
      have hline : line = line.takeWhile isWhite ++
          List.replicate ((cs.takeWhile (· = c)).length + 1) c ++ cs.dropWhile (· = c) := by
        rw [List.replicate_succ, ← hrun, List.append_assoc, List.cons_append,
          List.takeWhile_append_dropWhile, ← hcs, List.takeWhile_append_dropWhile]
      have hends : (cs.dropWhile (· = c)).head? ≠ some c := by
        intro hhead
        have := List.head?_dropWhile_not (· = c) cs
        simp [hhead] at this
      have hindent : ∀ d ∈ line.takeWhile isWhite, isWhite d = true :=
        fun d hd => List.mem_takeWhile_imp hd
      have hopens := Opens.intro hindent (isMark_iff.1 hmark) hlong hends
        fun hc hmem => hback ⟨hc, hmem⟩
      rwa [← hline] at hopens
    · cases h

theorem Opens.eq (h : Opens o line) (h' : Opens o' line) : o = o' :=
  Option.some.inj ((ofLine?_of_opens h).symm.trans (ofLine?_of_opens h'))

theorem isClosed_iff : o.isClosed line = true ↔ Closes o line := by
  simp only [isClosed, Closes, Bool.and_eq_true, decide_eq_true_eq, List.all_eq_true]
  constructor
  · rintro ⟨hlong, hall⟩
    exact ⟨_, hlong, List.eq_replicate_of_mem hall⟩
  · rintro ⟨n, hlong, htrim⟩
    rw [htrim, List.length_replicate]
    exact ⟨hlong, fun c hc => List.eq_of_mem_replicate hc⟩

instance (o : Opening) (line : Text) : Decidable (Closes o line) :=
  decidable_of_iff _ isClosed_iff

theorem strip_eq_unindent (o : Opening) (line : Text) : o.strip line = unindent o.indent line := by
  rw [strip, Text.stripStart_eq, unindent]
  split <;> rfl

end Opening

end Literate
