import Literate.Proofs.Characters
import Literate.Proofs.Occurrences

/-!
# Finding markers in two stages

A coarse scan looks for the brackets of a marker around characters that need only be visible and no
brackets themselves, from left to right and without overlaps. Then the characters are checked, and
what does not pass is dropped. This finds the same markers at the same places as reading marker by
marker: every marker is a candidate, and a candidate that is dropped has no marker in it.
-/

namespace Literate

namespace Marker

/-- The characters of a candidate: no white space and none of `< > #`. -/
def isCandidateChar (c : Char) : Bool :=
  !isWhite c && c != '<' && c != '>' && c != '#'

/-- A candidate: what it has between its brackets, and the bytes that it takes up. -/
structure Candidate where
  inner : Text
  start : Nat
  stop : Nat
  deriving DecidableEq, Repr

/-- A candidate counts if all its characters, a `#` at the start apart, may stand in a name. -/
def Candidate.accept? (c : Candidate) : Option Found :=
  if (c.inner.dropWhile (· = '#')).all isSectionChar then some ⟨.ofText c.inner, c.start, c.stop⟩
  else none

/-- Looks for candidates from left to right, each after the end of the one before. -/
def candidatesFrom (pos : Nat) : Text → List Candidate
  | [] => []
  | c :: cs =>
    match h : bracketed? isCandidateChar (c :: cs) with
    | some (p, rest) =>
      have := length_of_bracketed? h
      let stop := pos + Text.byteLength p.source
      ⟨p.inner, pos, stop⟩ :: candidatesFrom stop rest
    | none => candidatesFrom (pos + c.utf8Size) cs
termination_by t => t.length
decreasing_by
  · assumption
  · exact Nat.lt_succ_self cs.length

def candidates (t : Text) : List Candidate :=
  candidatesFrom 0 t

section Scan
variable {c : Char} {cs t rest bare : Text} {pos : Nat}

theorem candidatesFrom_of_some {p : Piece} (h : bracketed? isCandidateChar t = some (p, rest)) :
    candidatesFrom pos t =
      ⟨p.inner, pos, pos + Text.byteLength p.source⟩ ::
        candidatesFrom (pos + Text.byteLength p.source) rest := by
  cases t with
  | nil => simp [bracketed?] at h
  | cons c cs =>
    rw [candidatesFrom]
    split
    · rename_i p' rest' h'
      rw [h] at h'
      cases h'
      rfl
    · rename_i h'
      rw [h] at h'
      cases h'

theorem candidatesFrom_of_none (h : bracketed? isCandidateChar (c :: cs) = none) :
    candidatesFrom pos (c :: cs) = candidatesFrom (pos + c.utf8Size) cs := by
  rw [candidatesFrom]
  split
  · rename_i h'
    rw [h] at h'
    cases h'
  · rfl

theorem isCandidateChar_of_isSectionChar (h : isSectionChar c = true) :
    isCandidateChar c = true := by
  have hne : ∀ d, isSectionChar d = false → c ≠ d := by
    rintro d hd rfl
    rw [h] at hd
    cases hd
  have hwhite : isWhite c = false := by
    by_contra hw
    exact hne c (isSectionChar_of_isWhite (by simpa using hw)) rfl
  have hlt := hne '<' (by decide)
  have hgt := hne '>' (by decide)
  have hhash := hne '#' (by decide)
  simp [isCandidateChar, hwhite, hlt, hgt, hhash]

/-- Every marker is a candidate. -/
theorem marker?_eq_none_of_bracketed? (h : bracketed? isCandidateChar t = none) :
    marker? t = none := by
  cases hm : marker? t with
  | none => rfl
  | some found =>
    obtain ⟨p, rest⟩ := found
    obtain ⟨hash, bare, rfl, nonempty, chars, rfl⟩ := eq_of_bracketed? hm
    have hcandidate := bracketed?_source_append hash (by decide) (by decide) nonempty
      (fun c hc => isCandidateChar_of_isSectionChar (chars c hc)) rest
    rw [h] at hcandidate
    cases hcandidate

theorem marker?_eq_none_of_rejected (hash : Bool) (chars : ∀ c ∈ bare, isCandidateChar c = true)
    (hbad : ¬ ∀ c ∈ bare, isSectionChar c = true) (rest : Text) :
    marker? ((Piece.marker hash bare).source ++ rest) = none := by
  cases hm : marker? ((Piece.marker hash bare).source ++ rest) with
  | none => rfl
  | some found =>
    obtain ⟨p, rest'⟩ := found
    obtain ⟨hash', bare', rfl, _, chars', he⟩ := eq_of_bracketed? hm
    obtain ⟨_, rfl, _⟩ := source_append_inj (by decide) (by decide) chars
      (fun c hc => isCandidateChar_of_isSectionChar (chars' c hc)) he
    exact absurd chars' hbad

theorem marker?_eq_none_of_ne (h : ∀ w, t ≠ '<' :: '<' :: w) : marker? t = none := by
  unfold marker? bracketed?
  split
  · exact absurd rfl (h _)
  · exact absurd rfl (h _)
  · rfl

theorem foundFrom_append_of_no_bracket (h : '<' ∉ t) (pos : Nat) (rest : Text) :
    foundFrom pos (pieces (t ++ rest)) = foundFrom (pos + Text.byteLength t) (pieces rest) := by
  induction t generalizing pos with
  | nil => simp
  | cons c cs ih =>
    have hc : c ≠ '<' := fun hc => h (hc ▸ List.mem_cons_self)
    have hnone : marker? (c :: (cs ++ rest)) = none := marker?_eq_none_of_ne (by simp [hc])
    rw [List.cons_append, foundFrom_of_no_marker hnone,
      ih (List.not_mem_of_not_mem_cons h), Text.byteLength_cons, Nat.add_assoc]

theorem foundFrom_rejected (hash : Bool) (chars : ∀ c ∈ bare, isCandidateChar c = true)
    (hbad : ¬ ∀ c ∈ bare, isSectionChar c = true) (pos : Nat) (rest : Text) :
    foundFrom pos (pieces ((Piece.marker hash bare).source ++ rest)) =
      foundFrom (pos + Text.byteLength (Piece.marker hash bare).source) (pieces rest) := by
  have hfirst := marker?_eq_none_of_rejected hash chars hbad rest
  have hlt : '<' ∉ bare := not_mem_of_class chars (by decide)
  obtain ⟨w, hsource, hne, hfree⟩ := source_shape hash hlt
  -- the first `<` starts no marker, the second has no other behind it, and there are no more
  have hsecond : marker? ('<' :: (w ++ rest)) = none := by
    obtain ⟨x, w, rfl⟩ := List.exists_cons_of_ne_nil hne
    have hx : x ≠ '<' := fun hx => hfree (hx ▸ List.mem_cons_self)
    exact marker?_eq_none_of_ne (by simp [hx])
  rw [hsource, List.cons_append, List.cons_append] at hfirst
  rw [hsource, List.cons_append, List.cons_append, foundFrom_of_no_marker hfirst,
    foundFrom_of_no_marker hsecond, foundFrom_append_of_no_bracket hfree]
  simp only [Text.byteLength_cons, Nat.add_assoc]

theorem dropWhile_inner (hash : Bool) (hfree : '#' ∉ bare) :
    (Piece.marker hash bare).inner.dropWhile (· = '#') = bare := by
  have hbare : bare.dropWhile (· = '#') = bare := by
    cases bare with
    | nil => rfl
    | cons c cs =>
      have hc : c ≠ '#' := fun hc => hfree (hc ▸ List.mem_cons_self)
      simp [hc]
  cases hash with
  | true => simpa [Piece.inner] using hbare
  | false => exact hbare

theorem ofText_inner (hash : Bool) (hfree : '#' ∉ bare) :
    SectionName.ofText (Piece.marker hash bare).inner = .ofText bare := by
  cases hash with
  | true =>
    rw [SectionName.ofText.eq_2 bare fun cs hcs => hfree (hcs ▸ List.mem_cons_self)]
    rfl
  | false => rfl

theorem accept?_inner (hash : Bool) (hfree : '#' ∉ bare) (start stop : Nat) :
    Candidate.accept? ⟨(Piece.marker hash bare).inner, start, stop⟩ =
      if bare.all isSectionChar then some ⟨.ofText bare, start, stop⟩ else none := by
  simp only [Candidate.accept?, dropWhile_inner hash hfree, ofText_inner hash hfree]

/-- Checking the candidates gives what reading marker by marker gives. -/
theorem foundFrom_eq_candidates (pos : Nat) (t : Text) :
    foundFrom pos (pieces t) = (candidatesFrom pos t).filterMap Candidate.accept? := by
  induction pos, t using candidatesFrom.induct with
  | case1 pos => simp [pieces_nil, foundFrom, candidatesFrom]
  | case2 pos c cs p rest h _ stop ih =>
    obtain ⟨hash, bare, rfl, nonempty, chars, he⟩ := eq_of_bracketed? h
    have hfree := not_mem_of_class chars (d := '#') (by decide)
    rw [candidatesFrom_of_some h, List.filterMap_cons, accept?_inner hash hfree, ← ih, he]
    by_cases hall : ∀ c ∈ bare, isSectionChar c = true
    · rw [if_pos (List.all_eq_true.2 hall)]
      exact (Spells.intro hash nonempty hall).foundFrom pos rest
    · rw [if_neg fun h => hall (List.all_eq_true.1 h)]
      exact foundFrom_rejected hash chars hall pos rest
  | case3 pos c cs h ih =>
    rw [candidatesFrom_of_none h, ← ih, foundFrom_of_no_marker (marker?_eq_none_of_bracketed? h)]

/-- The markers found in a text are its occurrences of markers, each once and in order: each ends
before the next one starts, and its bytes in the text spell a marker for its section. Looking for
candidates first and checking their characters afterwards finds the same. -/
theorem find_eq_occurrences (t : Text) :
    (∀ found, found ∈ find t ↔ Occurs t found) ∧
      (find t).Pairwise (fun a b => a.stop ≤ b.start) ∧
      (∀ found ∈ find t, found.start < found.stop ∧
        ∃ m, Spells m found.name ∧
          t.utf8Encode.extract found.start found.stop = m.utf8Encode) ∧
      find t = (candidates t).filterMap Candidate.accept? := by
  refine ⟨fun _ => mem_find_iff, pairwise_foundFrom 0 (pieces t), ?_, foundFrom_eq_candidates 0 t⟩
  intro found hfound
  have hoccurs := mem_find_iff.1 hfound
  exact ⟨hoccurs.start_lt_stop, hoccurs.extract_utf8Encode⟩

example : find "<<<x+y>>>> <<#größe>>>".toList = [⟨.named "größe".toList, 11, 23⟩] := by
  decide +kernel

end Scan

end Marker

end Literate
