import Literate.Proofs.Filling

/-!
# Markers are found wherever they occur

`Marker.Occurs t found` says, from the spelling of markers alone, that the bytes of `found` in `t`
are a marker. The markers that are found in a text are its occurrences, from left to right: reading
on after a marker misses none, because no marker starts inside another one.
-/

namespace Literate

theorem Text.size_utf8Encode (t : Text) : t.utf8Encode.size = byteLength t := by
  induction t with
  | nil => rfl
  | cons c t ih =>
    rw [List.utf8Encode_cons, ByteArray.size_append, ih, List.utf8Encode_singleton, byteLength_cons,
      List.size_toByteArray, String.length_utf8EncodeChar]

theorem Text.byteLength_eq_zero {t : Text} : byteLength t = 0 ↔ t = [] := by
  cases t with
  | nil => simp
  | cons c t =>
    have := c.utf8Size_pos
    simp only [byteLength_cons, reduceCtorEq, iff_false]
    omega

namespace Marker
variable {m m' t rest : Text} {n n' : SectionName} {pos : Nat}

theorem Spells.shape (h : Spells m n) : ∃ w, m = '<' :: '<' :: w ∧ w ≠ [] ∧ '<' ∉ w := by
  cases h with
  | intro hash nonempty chars => exact source_shape hash (not_mem_of_class chars (by decide))

/-- No marker starts inside another one. -/
theorem Spells.not_inside (h : Spells m n) (h' : Spells m' n') {before u after : Text}
    (hm : m = before ++ u) (hbefore : before ≠ []) (hu : u ≠ []) : m' ++ after ≠ u ++ rest := by
  obtain ⟨w, rfl, hw, hlt⟩ := h.shape
  obtain ⟨w', rfl, _, _⟩ := h'.shape
  intro he
  match before, hbefore with
  | [_], _ =>
    -- the second character of the marker starts none: the third is no `<`
    obtain ⟨x, w, rfl⟩ := List.exists_cons_of_ne_nil hw
    cases hm
    simp only [List.cons_append, List.cons.injEq] at he
    exact hlt (by simp [← he.2.1])
  | _ :: _ :: before, _ =>
    obtain ⟨x, u, rfl⟩ := List.exists_cons_of_ne_nil hu
    cases hm
    simp only [List.cons_append, List.cons.injEq] at he
    exact hlt (by simp [← he.1])

/-- An occurrence of a marker in a text that starts with one is this one or lies behind it. -/
theorem Spells.split_append (h : Spells m n) (h' : Spells m' n') {before after : Text}
    (he : m ++ rest = before ++ m' ++ after) :
    (before = [] ∧ m' = m ∧ n' = n) ∨
      ∃ between, before = m ++ between ∧ rest = between ++ m' ++ after := by
  rw [List.append_assoc] at he
  by_cases hbefore : before = []
  · subst hbefore
    obtain ⟨hm, hn, _⟩ := h.eq_of_append h' he
    exact .inl ⟨rfl, hm.symm, hn.symm⟩
  · right
    rcases List.append_eq_append_iff.1 he with ⟨between, rfl, hrest⟩ | ⟨u, hm, hu⟩
    · exact ⟨between, rfl, by simpa using hrest⟩
    · by_cases hnil : u = []
      · subst hnil
        exact ⟨[], by simpa using hm.symm, by simpa using hu.symm⟩
      · exact absurd hu (h.not_inside h' hm hbefore hnil)

theorem foundFrom_of_no_marker {c : Char} {cs : Text} (h : marker? (c :: cs) = none) :
    foundFrom pos (pieces (c :: cs)) = foundFrom (pos + c.utf8Size) (pieces cs) := by
  rw [pieces_of_no_marker h]
  simp [foundFrom, Piece.name?, Piece.source]

theorem Spells.foundFrom (h : Spells m n) (pos : Nat) (rest : Text) :
    Marker.foundFrom pos (pieces (m ++ rest)) =
      ⟨n, pos, pos + Text.byteLength m⟩ ::
        Marker.foundFrom (pos + Text.byteLength m) (pieces rest) := by
  obtain ⟨p, hp, hn⟩ := h.marker? rest
  obtain ⟨_, _, _, _, _, htext⟩ := eq_of_bracketed? hp
  have hsource : p.source = m := (List.append_cancel_right htext).symm
  rw [pieces_of_marker? hp]
  simp only [Marker.foundFrom, hn, hsource]

theorem mem_foundFrom_iff {found : Found} :
    found ∈ foundFrom pos (pieces t) ↔
      ∃ before m after n, t = before ++ m ++ after ∧ Spells m n ∧
        found = ⟨n, pos + Text.byteLength before,
          pos + Text.byteLength before + Text.byteLength m⟩ := by
  induction t using scan_induction generalizing pos with
  | nil =>
    simp only [pieces_nil, foundFrom, List.not_mem_nil, false_iff]
    rintro ⟨before, m, after, n, he, hm, _⟩
    obtain ⟨w, rfl, _⟩ := hm.shape
    simp at he
  | char c cs hnone ih =>
    rw [foundFrom_of_no_marker hnone, ih]
    constructor
    · rintro ⟨before, m, after, n, rfl, hm, rfl⟩
      exact ⟨c :: before, m, after, n, rfl, hm, by simp [Nat.add_assoc]⟩
    · rintro ⟨before, m, after, n, he, hm, rfl⟩
      cases before with
      | nil =>
        obtain ⟨p, hp, _⟩ := hm.marker? after
        rw [List.nil_append] at he
        rw [← he, hnone] at hp
        cases hp
      | cons d before =>
        cases he
        exact ⟨before, m, after, n, rfl, hm, by simp [Nat.add_assoc]⟩
  | marker m n rest hm ih =>
    rw [hm.foundFrom, List.mem_cons, ih]
    constructor
    · rintro (rfl | ⟨before, m', after, n', rfl, hm', rfl⟩)
      · exact ⟨[], m, rest, n, rfl, hm, rfl⟩
      · exact ⟨m ++ before, m', after, n', by simp, hm', by simp [Nat.add_assoc]⟩
    · -- an occurrence is the marker at the start or lies in the rest, which is searched on its own
      rintro ⟨before, m', after, n', he, hm', rfl⟩
      rcases hm.split_append hm' he with ⟨rfl, rfl, rfl⟩ | ⟨between, rfl, rfl⟩
      · exact .inl rfl
      · exact .inr ⟨between, m', after, n', rfl, hm', by simp [Nat.add_assoc]⟩

/-- `found` is an occurrence of a marker in the text: its bytes come after those of some `before`
and are those of the marker. -/
inductive Occurs (t : Text) : Found → Prop where
  | intro {before m after : Text} {n : SectionName} (split : t = before ++ m ++ after)
      (spells : Spells m n) :
      Occurs t ⟨n, Text.byteLength before, Text.byteLength before + Text.byteLength m⟩

theorem mem_find_iff {found : Found} : found ∈ find t ↔ Occurs t found := by
  rw [find, mem_foundFrom_iff]
  constructor
  · rintro ⟨before, m, after, n, split, spells, rfl⟩
    simpa using Occurs.intro split spells
  · rintro ⟨split, spells⟩
    exact ⟨_, _, _, _, split, spells, by simp⟩

theorem Occurs.start_lt_stop {found : Found} (h : Occurs t found) : found.start < found.stop := by
  cases h with
  | intro _ spells =>
    obtain ⟨w, rfl, _⟩ := spells.shape
    have := '<'.utf8Size_pos
    simp only [Text.byteLength_cons]
    omega

theorem Occurs.extract_utf8Encode {found : Found} (h : Occurs t found) :
    ∃ m, Spells m found.name ∧ t.utf8Encode.extract found.start found.stop = m.utf8Encode := by
  cases h with
  | @intro before m after n split spells =>
    refine ⟨m, spells, ?_⟩
    subst split
    simp only [List.append_assoc, List.utf8Encode_append, ← Text.size_utf8Encode]
    rw [← Nat.add_zero before.utf8Encode.size, Nat.add_assoc, Nat.zero_add,
      ByteArray.extract_append_size_add]
    exact ByteArray.extract_append_eq_left rfl

theorem start_le_of_mem_foundFrom (ps : List Piece) {found : Found}
    (h : found ∈ foundFrom pos ps) : pos ≤ found.start := by
  induction ps generalizing pos with
  | nil => cases h
  | cons p ps ih =>
    rw [foundFrom] at h
    split at h
    · rcases List.mem_cons.1 h with rfl | h
      · exact Nat.le_refl _
      · exact Nat.le_trans (Nat.le_add_right _ _) (ih h)
    · exact Nat.le_trans (Nat.le_add_right _ _) (ih h)

theorem pairwise_foundFrom (pos : Nat) (ps : List Piece) :
    (foundFrom pos ps).Pairwise fun a b => a.stop ≤ b.start := by
  induction ps generalizing pos with
  | nil => exact .nil
  | cons p ps ih =>
    rw [foundFrom]
    split
    · exact .cons (fun b hb => start_le_of_mem_foundFrom ps hb) (ih _)
    · exact ih _

end Marker

end Literate
