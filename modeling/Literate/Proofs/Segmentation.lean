import Literate.Proofs.FenceLines
import Mathlib.Data.List.Basic

/-!
# The fences of a document are its only segmentation

A segmentation of a document marks ranges of lines, each from an opening line on to the first later
line that closes it, such that no opening line is left outside. There is exactly one, and reading
reports its ranges. Lines are counted from zero here; reports count them from one.
-/

namespace Literate.Fence

/-- The lines of one fence. Without a closing line it runs to the end of the document. -/
structure Range where
  first : Nat
  opening : Opening
  close : Option Nat
  deriving DecidableEq, Repr

namespace Range

def Covers (r : Range) (k : Nat) : Prop :=
  r.first ≤ k ∧ ∀ n ∈ r.close, k ≤ n

/-- The lines strictly inside the range. -/
def inside (ls : List Text) (r : Range) : List Text :=
  (ls.take (r.close.getD ls.length)).drop (r.first + 1)

def fence (ls : List Text) (r : Range) : Fence :=
  ⟨r.close.isSome, r.opening.info,
    Text.unlines ((r.inside ls).map (Opening.unindent r.opening.indent)),
    r.first + 1, r.opening.indent⟩

/-- The range starts with an opening line and ends with the first later line that closes it. -/
structure IsFence (ls : List Text) (r : Range) : Prop where
  opens : ∃ l, ls[r.first]? = some l ∧ r.opening.Opens l
  closes : ∀ n ∈ r.close, r.first < n ∧ ∃ l, ls[n]? = some l ∧ r.opening.Closes l
  inside_open : ∀ l ∈ r.inside ls, ¬ r.opening.Closes l

end Range

/-- The ranges divide the lines from number `start` on. All but the last of them are closed. -/
structure IsSegmentation (ls : List Text) (start : Nat) (rs : List Range) : Prop where
  fences : ∀ r ∈ rs, r.IsFence ls
  start_le : ∀ r ∈ rs, start ≤ r.first
  ordered : rs.Pairwise fun r r' => ∃ n ∈ r.close, n < r'.first
  outside : ∀ k l, start ≤ k → ls[k]? = some l → (∀ r ∈ rs, ¬ r.Covers k) →
    ∀ o, ¬ Opening.Opens o l

variable {ls : List Text} {start : Nat} {rs rs' : List Range} {r r' : Range}

theorem Range.mem_inside {k : Nat} {l : Text} (hl : ls[k]? = some l) (hfirst : r.first < k)
    (hclose : ∀ n ∈ r.close, k < n) : l ∈ r.inside ls := by
  obtain ⟨hlen, rfl⟩ := List.getElem?_eq_some_iff.1 hl
  have hk : k < r.close.getD ls.length := by
    cases hc : r.close with
    | none => exact hlen
    | some n => exact hclose n hc
  apply List.mem_iff_getElem.2
  refine ⟨k - (r.first + 1), ?_, ?_⟩
  · simp only [inside, List.length_drop, List.length_take]
    omega
  · simp only [inside, List.getElem_drop, List.getElem_take]
    congr 1
    omega

/-- No range can be closed where the other one is still open. -/
theorem Range.IsFence.not_close_lt (h : r.IsFence ls) (h' : r'.IsFence ls)
    (hfirst : r.first = r'.first) (hopening : r.opening = r'.opening) {n : Nat}
    (hn : r.close = some n) : ¬ ∀ n' ∈ r'.close, n < n' := by
  intro hlater
  obtain ⟨hlt, l, hl, hcloses⟩ := h.closes n hn
  exact h'.inside_open l (mem_inside hl (hfirst ▸ hlt) hlater) (hopening ▸ hcloses)

theorem Range.IsFence.eq (h : r.IsFence ls) (h' : r'.IsFence ls) (hfirst : r.first = r'.first) :
    r = r' := by
  obtain ⟨l, hl, hopens⟩ := h.opens
  obtain ⟨l', hl', hopens'⟩ := h'.opens
  rw [hfirst, hl', Option.some.injEq] at hl
  subst hl
  have hopening := hopens.eq hopens'
  have hclose : r.close = r'.close := by
    cases hc : r.close with
    | none =>
      cases hc' : r'.close with
      | none => rfl
      | some n' => exact absurd (by simp [hc]) (h'.not_close_lt h hfirst.symm hopening.symm hc')
    | some n =>
      cases hc' : r'.close with
      | none => exact absurd (by simp [hc']) (h.not_close_lt h' hfirst hopening hc)
      | some n' =>
        have hle : ¬ n < n' := by
          simpa [hc'] using h.not_close_lt h' hfirst hopening hc
        have hge : ¬ n' < n := by
          simpa [hc] using h'.not_close_lt h hfirst.symm hopening.symm hc'
        congr 1
        omega
  cases r
  cases r'
  simp_all

namespace IsSegmentation

theorem tail {n : Nat} (h : IsSegmentation ls start (r :: rs)) (hn : r.close = some n) :
    IsSegmentation ls (n + 1) rs where
  fences := fun s hs => h.fences s (List.mem_cons_of_mem _ hs)
  start_le := by
    intro s hs
    obtain ⟨m, hm, hlt⟩ := (List.pairwise_cons.1 h.ordered).1 s hs
    cases hn.symm.trans hm
    exact hlt
  ordered := (List.pairwise_cons.1 h.ordered).2
  outside := by
    intro k l hk hl hcover
    have hr := h.fences r List.mem_cons_self
    have hstart := h.start_le r List.mem_cons_self
    have hfirst := (hr.closes n hn).1
    apply h.outside k l (by omega) hl
    intro s hs hcovers
    rcases List.mem_cons.1 hs with rfl | hs
    · have := hcovers.2 n hn
      omega
    · exact hcover s hs hcovers

theorem tail_eq_nil (h : IsSegmentation ls start (r :: rs)) (hn : r.close = none) : rs = [] := by
  cases rs with
  | nil => rfl
  | cons s rs =>
    obtain ⟨m, hm, _⟩ := (List.pairwise_cons.1 h.ordered).1 s List.mem_cons_self
    rw [hn] at hm
    cases hm

theorem first_le (h : IsSegmentation ls start (r :: rs)) : ∀ s ∈ r :: rs, r.first ≤ s.first := by
  intro s hs
  rcases List.mem_cons.1 hs with rfl | hs
  · exact le_rfl
  · obtain ⟨n, hn, hlt⟩ := (List.pairwise_cons.1 h.ordered).1 s hs
    have := ((h.fences r List.mem_cons_self).closes n hn).1
    omega

/-- The opening line of a range lies in a range of every other segmentation. -/
theorem exists_covers (h : IsSegmentation ls start rs) (h' : IsSegmentation ls start rs')
    (hr : r ∈ rs) : ∃ s ∈ rs', s.Covers r.first := by
  obtain ⟨l, hl, hopens⟩ := (h.fences r hr).opens
  by_contra hnone
  exact h'.outside r.first l (h.start_le r hr) hl (fun s hs hcovers => hnone ⟨s, hs, hcovers⟩)
    r.opening hopens

theorem first_le_first (h : IsSegmentation ls start (r :: rs))
    (h' : IsSegmentation ls start (r' :: rs')) : r'.first ≤ r.first := by
  obtain ⟨s, hs, hcovers⟩ := h.exists_covers h' (List.mem_cons_self (a := r))
  exact le_trans (h'.first_le s hs) hcovers.1

/-- The ranges are determined one after the other: the first opening line, then the first line that
closes it, then the same for the lines that follow. -/
theorem unique (h : IsSegmentation ls start rs) (h' : IsSegmentation ls start rs') : rs = rs' := by
  induction rs generalizing start rs' with
  | nil =>
    cases rs' with
    | nil => rfl
    | cons r' rs' =>
      obtain ⟨s, hs, _⟩ := h'.exists_covers h (List.mem_cons_self (a := r'))
      cases hs
  | cons r rs ih =>
    cases rs' with
    | nil =>
      obtain ⟨s, hs, _⟩ := h.exists_covers h' (List.mem_cons_self (a := r))
      cases hs
    | cons r' rs' =>
      have hfirst := le_antisymm (h'.first_le_first h) (h.first_le_first h')
      have hr := (h.fences r List.mem_cons_self).eq (h'.fences r' List.mem_cons_self) hfirst
      subst hr
      cases hc : r.close with
      | none => rw [h.tail_eq_nil hc, h'.tail_eq_nil hc]
      | some n => rw [ih (h.tail hc) (h'.tail hc)]

theorem nil_of_length_le (h : ls.length ≤ start) : IsSegmentation ls start [] where
  fences := by simp
  start_le := by simp
  ordered := .nil
  outside := by
    intro k l hk hl
    rw [List.getElem?_eq_none (by omega)] at hl
    cases hl

theorem skip {l : Text} (h : IsSegmentation ls (start + 1) rs) (hl : ls[start]? = some l)
    (hplain : ∀ o, ¬ Opening.Opens o l) : IsSegmentation ls start rs where
  fences := h.fences
  start_le := fun r hr => Nat.le_of_succ_le (h.start_le r hr)
  ordered := h.ordered
  outside := by
    intro k l' hk hl' hcover
    rcases Nat.eq_or_lt_of_le hk with rfl | hlt
    · cases hl.symm.trans hl'
      exact hplain
    · exact h.outside k l' hlt hl' hcover

theorem single (h : r.IsFence ls) (hn : r.close = none) : IsSegmentation ls r.first [r] where
  fences := by simpa using h
  start_le := by simp
  ordered := List.pairwise_singleton _ r
  outside := by
    intro k l hk hl hcover
    exact absurd ⟨hk, by simp [hn]⟩ (hcover r List.mem_cons_self)

theorem cons {n : Nat} (h : r.IsFence ls) (hn : r.close = some n)
    (hrs : IsSegmentation ls (n + 1) rs) : IsSegmentation ls r.first (r :: rs) where
  fences := List.forall_mem_cons.2 ⟨h, hrs.fences⟩
  start_le := by
    have hlt := (h.closes n hn).1
    refine List.forall_mem_cons.2 ⟨le_rfl, fun s hs => ?_⟩
    have := hrs.start_le s hs
    omega
  ordered := List.pairwise_cons.2 ⟨fun s hs => ⟨n, hn, hrs.start_le s hs⟩, hrs.ordered⟩
  outside := by
    intro k l hk hl hcover
    obtain ⟨hr, hrest⟩ := List.forall_mem_cons.1 hcover
    have hlt : n < k := by
      by_contra hle
      refine hr ⟨hk, fun m hm => ?_⟩
      cases hn.symm.trans hm
      omega
    exact hrs.outside k l hlt hl hrest

end IsSegmentation

theorem fence_begun (o : Opening) (closed : Bool) (line : Nat) (content : List Text) :
    (Begun.mk o line content.reverse).fence closed =
      ⟨closed, o.info, Text.unlines (content.map (Opening.unindent o.indent)), line, o.indent⟩ := by
  rw [Begun.fence, List.reverse_reverse, Opening.fence, funext o.strip_eq_unindent]

/-- What follows the closing line, if there is one. -/
def readAfter (ls : List Text) : Option Nat → List Fence
  | none => []
  | some n => readLines (n + 2) none (ls.drop (n + 1))

/-- Reading on inside a fence. The lines since the opening line are the content so far, and none of
them closes the fence. -/
theorem readLines_begun {first k : Nat} {o : Opening} {line : Text} {rest : List Text}
    (hline : ls[first]? = some line) (hopens : o.Opens line) (hfirst : first < k)
    (hk : k ≤ ls.length) (hopen : ∀ l ∈ (ls.take k).drop (first + 1), ¬ o.Closes l)
    (hrest : ls.drop k = rest) :
    ∃ close, Range.IsFence ls ⟨first, o, close⟩ ∧
      readLines (k + 1) (some ⟨o, first + 1, ((ls.take k).drop (first + 1)).reverse⟩) rest =
        Range.fence ls ⟨first, o, close⟩ :: readAfter ls close := by
  induction rest generalizing k with
  | nil =>
    have hlen : ls.length = k := le_antisymm (List.drop_eq_nil_iff.1 hrest) hk
    subst hlen
    refine ⟨none, ⟨⟨line, hline, hopens⟩, by simp, hopen⟩, ?_⟩
    rw [readLines, fence_begun]
    rfl
  | cons l rest ih =>
    obtain ⟨hlt, hl, hrest⟩ : ∃ h : k < ls.length, ls[k] = l ∧ ls.drop (k + 1) = rest := by
      have hlt : k < ls.length := by
        by_contra hge
        rw [List.drop_eq_nil_iff.2 (by omega)] at hrest
        cases hrest
      rw [List.drop_eq_getElem_cons hlt] at hrest
      exact ⟨hlt, List.cons.inj hrest⟩
    have hl? : ls[k]? = some l := by rw [List.getElem?_eq_getElem hlt, hl]
    rw [readLines]
    by_cases hcloses : o.isClosed l
    · refine ⟨some k, ⟨⟨line, hline, hopens⟩, ?_, hopen⟩, ?_⟩
      · intro n hn
        cases hn
        exact ⟨hfirst, l, hl?, Opening.isClosed_iff.1 hcloses⟩
      · rw [if_pos hcloses, fence_begun, readAfter, hrest]
        rfl
    · -- The line joins the content, and the invariant moves on by one line.
      have hgrow : (ls.take (k + 1)).drop (first + 1) = (ls.take k).drop (first + 1) ++ [l] := by
        rw [List.take_add_one, hl?, List.drop_append_of_le_length]
        · rfl
        · rw [List.length_take]
          omega
      rw [if_neg hcloses]
      have hopen' : ∀ l ∈ (ls.take (k + 1)).drop (first + 1), ¬ o.Closes l := by
        rw [hgrow]
        intro l' hl'
        rcases List.mem_append.1 hl' with hl' | hl'
        · exact hopen l' hl'
        · rw [List.mem_singleton.1 hl']
          exact fun h => hcloses (Opening.isClosed_iff.2 h)
      have hread := ih (by omega) hlt hopen' hrest
      rwa [hgrow, List.reverse_append] at hread

/-- Reading outside of a fence reports a segmentation of what is still to be read. -/
theorem exists_segmentation (ls : List Text) (start : Nat) :
    ∃ rs, IsSegmentation ls start rs ∧
      readLines (start + 1) none (ls.drop start) = rs.map (Range.fence ls) := by
  induction hn : ls.length - start using Nat.strong_induction_on generalizing start with
  | h n ih =>
    by_cases hlen : ls.length ≤ start
    · refine ⟨[], .nil_of_length_le hlen, ?_⟩
      rw [List.drop_eq_nil_iff.2 hlen]
      rfl
    · have hlt : start < ls.length := by omega
      have hl : ls[start]? = some ls[start] := List.getElem?_eq_getElem hlt
      rw [List.drop_eq_getElem_cons hlt, readLines]
      cases ho : Opening.ofLine? ls[start] with
      | none =>
        obtain ⟨rs, hrs, hread⟩ := ih (ls.length - (start + 1)) (by omega) (start + 1) rfl
        refine ⟨rs, hrs.skip hl fun o h => ?_, hread⟩
        rw [Opening.ofLine?_of_opens h] at ho
        cases ho
      | some o =>
        have hnone : (ls.take (start + 1)).drop (start + 1) = [] := by simp
        obtain ⟨close, hfence, hread⟩ := readLines_begun hl (Opening.opens_of_ofLine? ho)
          (Nat.lt_succ_self start) hlt (by simp) rfl
        rw [hnone, List.reverse_nil] at hread
        dsimp only
        rw [hread]
        cases close with
        | none => exact ⟨[⟨start, o, none⟩], .single hfence rfl, rfl⟩
        | some n =>
          have hafter : start < n := (hfence.closes n rfl).1
          obtain ⟨rs, hrs, hread⟩ := ih (ls.length - (n + 1)) (by omega) (n + 1) rfl
          exact ⟨⟨start, o, some n⟩ :: rs, .cons hfence rfl hrs, by rw [readAfter, hread]; rfl⟩

/-- Reading reports the ranges of the only segmentation of the document. -/
theorem read_eq_segmentation (t : Text) :
    (∃! rs, IsSegmentation (Text.lines t) 0 rs) ∧
      ∀ rs, IsSegmentation (Text.lines t) 0 rs →
        read t = rs.map (Range.fence (Text.lines t)) := by
  obtain ⟨rs, hrs, hread⟩ := exists_segmentation (Text.lines t) 0
  refine ⟨⟨rs, hrs, fun rs' hrs' => hrs'.unique hrs⟩, fun rs' hrs' => ?_⟩
  rw [hrs'.unique hrs, ← hread]
  rfl

end Literate.Fence
