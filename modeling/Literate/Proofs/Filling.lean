import Literate.Rendering
import Literate.Proofs.Brackets
import Mathlib.Data.List.Forall2

/-!
# Texts with their markers filled in

`Marker.Filled R t u` says, from the spelling of markers alone, that `u` is `t` with a text from
`R` in place of each marker. When the filler leaves its state alone on success, replacing markers
succeeds with exactly the filled texts, and it fails exactly at the first marker that cannot be
filled. The same is shown for the chunks of a section.
-/

namespace Literate

namespace Marker

/-- The text is `<<name>>` or `<<#name>>`, and the section is the one of that name. -/
inductive Spells : Text → SectionName → Prop where
  | intro (hash : Bool) {bare : Text} (nonempty : bare ≠ [])
      (chars : ∀ c ∈ bare, isSectionChar c = true) :
      Spells (Piece.marker hash bare).source (.ofText bare)

theorem marker?_source_append (hash : Bool) {bare : Text} (nonempty : bare ≠ [])
    (chars : ∀ c ∈ bare, isSectionChar c = true) (rest : Text) :
    marker? ((Piece.marker hash bare).source ++ rest) = some (.marker hash bare, rest) :=
  bracketed?_source_append hash (by decide) (by decide) nonempty chars rest

theorem pieces_nil : pieces [] = [] := by
  rw [pieces]

theorem pieces_of_marker? {t rest : Text} {p : Piece} (h : marker? t = some (p, rest)) :
    pieces t = p :: pieces rest := by
  cases t with
  | nil => simp [marker?, bracketed?] at h
  | cons c cs =>
    rw [pieces]
    split
    · rename_i p' rest' h'
      rw [h] at h'
      cases h'
      rfl
    · rename_i h'
      rw [h] at h'
      cases h'

theorem pieces_of_no_marker {c : Char} {cs : Text} (h : marker? (c :: cs) = none) :
    pieces (c :: cs) = .char c :: pieces cs := by
  rw [pieces]
  split
  · rename_i h'
    rw [h] at h'
    cases h'
  · rfl

theorem names_nil : names [] = [] := by
  simp [names, pieces_nil]

theorem names_of_no_marker {c : Char} {cs : Text} (h : marker? (c :: cs) = none) :
    names (c :: cs) = names cs := by
  rw [names, pieces_of_no_marker h, List.filterMap_cons_none rfl, names]

theorem Spells.marker? {m : Text} {n : SectionName} (h : Spells m n) (rest : Text) :
    ∃ p : Piece, Marker.marker? (m ++ rest) = some (p, rest) ∧ p.name? = some n := by
  cases h with
  | intro hash nonempty chars =>
    exact ⟨_, marker?_source_append hash nonempty chars rest, rfl⟩

theorem Spells.names {m : Text} {n : SectionName} (h : Spells m n) (rest : Text) :
    Marker.names (m ++ rest) = n :: Marker.names rest := by
  obtain ⟨p, hp, hn⟩ := h.marker? rest
  simp [Marker.names, pieces_of_marker? hp, hn]

theorem spells_or_no_marker (t : Text) :
    (∃ m n rest, t = m ++ rest ∧ Spells m n) ∨ marker? t = none := by
  cases h : marker? t with
  | none => exact .inr rfl
  | some found =>
    obtain ⟨p, rest⟩ := found
    obtain ⟨hash, bare, rfl, nonempty, chars, ht⟩ := eq_of_bracketed? h
    exact .inl ⟨_, _, rest, ht, .intro hash nonempty chars⟩

/-- `Filled R t u`: from left to right, every marker of `t` is replaced by a text that `R` gives
for its section, and every character that starts no marker is copied. -/
inductive Filled (R : SectionName → Text → Prop) : Text → Text → Prop where
  | nil : Filled R [] []
  | char {c : Char} {cs u : Text} (plain : ∀ m n rest, Spells m n → c :: cs ≠ m ++ rest)
      (tail : Filled R cs u) : Filled R (c :: cs) (c :: u)
  | marker {m cs v u : Text} {n : SectionName} (spells : Spells m n) (inserted : R n v)
      (tail : Filled R cs u) : Filled R (m ++ cs) (v ++ u)

/-- Induction along the scanner: over a plain character, or over a marker. -/
theorem scan_induction {P : Text → Prop} (nil : P [])
    (char : ∀ c cs, marker? (c :: cs) = none → P cs → P (c :: cs))
    (marker : ∀ m n rest, Spells m n → P rest → P (m ++ rest)) (t : Text) : P t := by
  induction t using pieces.induct with
  | case1 => exact nil
  | case2 c cs p rest h _ ih =>
    obtain ⟨hash, bare, rfl, nonempty, chars, ht⟩ := eq_of_bracketed? h
    rw [ht]
    exact marker _ _ rest (.intro hash nonempty chars) ih
  | case3 c cs h ih => exact char c cs h ih

theorem Spells.eq_of_append {m m' rest rest' : Text} {n n' : SectionName} (h : Spells m n)
    (h' : Spells m' n') (he : m ++ rest = m' ++ rest') : m = m' ∧ n = n' ∧ rest = rest' := by
  obtain ⟨p, hp, hn⟩ := h.marker? rest
  obtain ⟨p', hp', hn'⟩ := h'.marker? rest'
  rw [he, hp'] at hp
  cases hp
  rw [hn'] at hn
  exact ⟨List.append_cancel_right he, (Option.some.inj hn).symm, rfl⟩

section Inversion
variable {R R' : SectionName → Text → Prop}

theorem filled_nil_iff {u : Text} : Filled R [] u ↔ u = [] := by
  constructor
  · intro h
    generalize ht : ([] : Text) = t at h
    cases h with
    | nil => rfl
    | char => cases ht
    | marker spells =>
      cases spells
      simp [Piece.source] at ht
  · rintro rfl
    exact .nil

theorem filled_cons_iff {c : Char} {cs u : Text} (h : marker? (c :: cs) = none) :
    Filled R (c :: cs) u ↔ ∃ u', u = c :: u' ∧ Filled R cs u' := by
  have plain : ∀ m n rest, Spells m n → c :: cs ≠ m ++ rest := by
    intro m n rest hm he
    obtain ⟨p, hp, _⟩ := hm.marker? rest
    rw [← he, h] at hp
    cases hp
  constructor
  · intro hf
    generalize ht : c :: cs = t at hf
    cases hf with
    | nil => cases ht
    | char _ tail =>
      cases ht
      exact ⟨_, rfl, tail⟩
    | marker spells => exact absurd ht (plain _ _ _ spells)
  · intro htail
    obtain ⟨u', rfl, tail⟩ := htail
    exact .char plain tail

theorem filled_append_iff {m rest u : Text} {n : SectionName} (h : Spells m n) :
    Filled R (m ++ rest) u ↔ ∃ v u', u = v ++ u' ∧ R n v ∧ Filled R rest u' := by
  constructor
  · intro hf
    generalize ht : m ++ rest = t at hf
    cases hf with
    | nil =>
      cases h
      simp [Piece.source] at ht
    | char plain => exact absurd ht.symm (plain _ _ _ h)
    | marker spells inserted tail =>
      obtain ⟨_, rfl, rfl⟩ := h.eq_of_append spells ht
      exact ⟨_, _, rfl, inserted, tail⟩
  · intro htail
    obtain ⟨v, u', rfl, inserted, tail⟩ := htail
    exact .marker h inserted tail

theorem Filled.imp {t u : Text} (h : Filled R t u)
    (himp : ∀ n ∈ names t, ∀ v, R n v → R' n v) : Filled R' t u := by
  induction h with
  | nil => exact .nil
  | @char c cs u plain _ ih =>
    refine .char plain (ih fun n hn => himp n ?_)
    rcases spells_or_no_marker (c :: cs) with ⟨m, n', rest, he, hm⟩ | hnone
    · exact absurd he (plain m n' rest hm)
    · rwa [names_of_no_marker hnone]
  | marker spells inserted _ ih =>
    rw [spells.names] at himp
    exact .marker spells (himp _ List.mem_cons_self _ inserted)
      (ih fun n hn => himp n (List.mem_cons_of_mem _ hn))

theorem Filled.exists_of_mem_names {t u : Text} (h : Filled R t u) :
    ∀ n ∈ names t, ∃ v, R n v := by
  induction t using scan_induction generalizing u with
  | nil => simp [names_nil]
  | char c cs hnone ih =>
    obtain ⟨u', _, tail⟩ := (filled_cons_iff hnone).1 h
    rw [names_of_no_marker hnone]
    exact ih tail
  | marker m n rest hm ih =>
    obtain ⟨v, u', _, inserted, tail⟩ := (filled_append_iff hm).1 h
    rw [hm.names]
    intro k hk
    rcases List.mem_cons.1 hk with rfl | hk
    · exact ⟨v, inserted⟩
    · exact ih tail k hk

end Inversion

/-- A filler that succeeds hands on the state that it was given. -/
def Restores {σ ε : Type} (fill : SectionName → σ → Except ε Text × σ) : Prop :=
  ∀ n s u s', fill n s = (.ok u, s') → s' = s

/-- Of the names in order, the first that cannot be filled fails with `e` and leaves `s'`. -/
def FirstFailure {σ ε : Type} (fill : SectionName → σ → Except ε Text × σ) (s : σ)
    (ns : List SectionName) (e : ε) (s' : σ) : Prop :=
  ∃ earlier n later, ns = earlier ++ n :: later ∧ (∀ m ∈ earlier, ∃ v, fill m s = (.ok v, s)) ∧
    fill n s = (.error e, s')

def prepend {σ ε : Type} (u : Text) : Except ε Text × σ → Except ε Text × σ
  | (.ok t, s) => (.ok (u ++ t), s)
  | (.error e, s) => (.error e, s)

section Replacing
variable {σ ε : Type} {fill fill' : SectionName → σ → Except ε Text × σ} {s s' : σ} {e : ε}

theorem FirstFailure.append_left {ns : List SectionName} (h : FirstFailure fill s ns e s')
    (front : List SectionName) (hfront : ∀ m ∈ front, ∃ v, fill m s = (.ok v, s)) :
    FirstFailure fill s (front ++ ns) e s' := by
  obtain ⟨earlier, n, later, rfl, hearlier, hn⟩ := h
  refine ⟨front ++ earlier, n, later, by simp, ?_, hn⟩
  intro m hm
  rcases List.mem_append.1 hm with hm | hm
  · exact hfront m hm
  · exact hearlier m hm

theorem FirstFailure.append_right {ns : List SectionName} (h : FirstFailure fill s ns e s')
    (back : List SectionName) : FirstFailure fill s (ns ++ back) e s' := by
  obtain ⟨earlier, n, later, rfl, hearlier, hn⟩ := h
  exact ⟨earlier, n, later ++ back, by simp, hearlier, hn⟩

theorem prepend_eq_ok_iff {u t : Text} {r : Except ε Text × σ} :
    prepend u r = (.ok t, s) ↔ ∃ t', r = (.ok t', s) ∧ t = u ++ t' := by
  obtain ⟨_ | t', s'⟩ := r
  · simp [prepend]
  · simp [prepend, and_comm, eq_comm]

theorem prepend_eq_error_iff {u : Text} {r : Except ε Text × σ} :
    prepend u r = (.error e, s) ↔ r = (.error e, s) := by
  obtain ⟨_ | t, s'⟩ := r <;> simp [prepend]

theorem fillPieces_cons_of_none {p : Piece} (h : p.name? = none) (ps : List Piece) :
    fillPieces fill (p :: ps) s = prepend p.source (fillPieces fill ps s) := by
  rw [fillPieces, h]
  obtain ⟨_ | t, s'⟩ := fillPieces fill ps s <;> rfl

theorem fillPieces_cons_of_ok {p : Piece} {n : SectionName} {v : Text} (h : p.name? = some n)
    (hv : fill n s = (.ok v, s')) (ps : List Piece) :
    fillPieces fill (p :: ps) s = prepend v (fillPieces fill ps s') := by
  simp only [fillPieces, h, hv]
  obtain ⟨_ | t, s''⟩ := fillPieces fill ps s' <;> rfl

theorem fillPieces_cons_of_error {p : Piece} {n : SectionName} (h : p.name? = some n)
    (he : fill n s = (.error e, s')) (ps : List Piece) :
    fillPieces fill (p :: ps) s = (.error e, s') := by
  simp only [fillPieces, h, he]

theorem replace_nil : replace fill [] s = (.ok [], s) := by
  rw [replace, pieces_nil, fillPieces]

theorem replace_cons {c : Char} {cs : Text} (h : marker? (c :: cs) = none) :
    replace fill (c :: cs) s = prepend [c] (replace fill cs s) := by
  rw [replace, pieces_of_no_marker h, fillPieces_cons_of_none rfl, Piece.source, replace]

theorem replace_append_of_ok {m v : Text} {n : SectionName} (h : Spells m n)
    (hv : fill n s = (.ok v, s')) (rest : Text) :
    replace fill (m ++ rest) s = prepend v (replace fill rest s') := by
  obtain ⟨p, hp, hn⟩ := h.marker? rest
  rw [replace, pieces_of_marker? hp, fillPieces_cons_of_ok hn hv, replace]

theorem replace_append_of_error {m : Text} {n : SectionName} (h : Spells m n)
    (he : fill n s = (.error e, s')) (rest : Text) :
    replace fill (m ++ rest) s = (.error e, s') := by
  obtain ⟨p, hp, hn⟩ := h.marker? rest
  rw [replace, pieces_of_marker? hp, fillPieces_cons_of_error hn he]

/-- Replacing markers succeeds with exactly the filled texts. -/
theorem replace_eq_ok_iff (restores : Restores fill) {t u : Text} :
    replace fill t s = (.ok u, s') ↔
      s' = s ∧ Filled (fun n v => fill n s = (.ok v, s)) t u := by
  induction t using scan_induction generalizing u with
  | nil =>
    rw [replace_nil, filled_nil_iff]
    constructor
    · intro h
      cases h
      exact ⟨rfl, rfl⟩
    · rintro ⟨rfl, rfl⟩
      rfl
  | char c cs hnone ih =>
    rw [replace_cons hnone, filled_cons_iff hnone, prepend_eq_ok_iff]
    constructor
    · intro hrest
      obtain ⟨t, ht, rfl⟩ := hrest
      obtain ⟨hs, tail⟩ := ih.1 ht
      exact ⟨hs, t, rfl, tail⟩
    · intro hfilled
      obtain ⟨hs, u', rfl, tail⟩ := hfilled
      exact ⟨u', ih.2 ⟨hs, tail⟩, rfl⟩
  | marker m n rest hm ih =>
    rw [filled_append_iff hm]
    rcases hv : fill n s with ⟨e | v, after⟩
    · rw [replace_append_of_error hm hv]
      simp
    · -- the filler has left the state alone, so the induction hypothesis is about the rest
      obtain rfl := restores _ _ _ _ hv
      rw [replace_append_of_ok hm hv, prepend_eq_ok_iff]
      constructor
      · intro hrest
        obtain ⟨t, ht, rfl⟩ := hrest
        obtain ⟨hs, tail⟩ := ih.1 ht
        exact ⟨hs, v, t, rfl, rfl, tail⟩
      · intro hfilled
        obtain ⟨hs, v', u', rfl, hsame, tail⟩ := hfilled
        cases hsame
        exact ⟨u', ih.2 ⟨hs, tail⟩, rfl⟩

/-- Replacing markers fails at the first marker that cannot be filled. -/
theorem firstFailure_of_replace (restores : Restores fill) {t : Text}
    (h : replace fill t s = (.error e, s')) : FirstFailure fill s (names t) e s' := by
  induction t using scan_induction with
  | nil =>
    rw [replace_nil] at h
    cases h
  | char c cs hnone ih =>
    rw [replace_cons hnone, prepend_eq_error_iff] at h
    rw [names_of_no_marker hnone]
    exact ih h
  | marker m n rest hm ih =>
    rw [hm.names]
    rcases hv : fill n s with ⟨e' | v, after⟩
    · rw [replace_append_of_error hm hv] at h
      cases h
      exact ⟨[], n, names rest, rfl, by simp, hv⟩
    · obtain rfl := restores _ _ _ _ hv
      rw [replace_append_of_ok hm hv, prepend_eq_error_iff] at h
      exact (ih h).append_left [n] (by simpa using ⟨v, hv⟩)

theorem replace_congr (restores : Restores fill) {t : Text}
    (hagree : ∀ n ∈ names t, fill n s = fill' n s) : replace fill t s = replace fill' t s := by
  induction t using scan_induction with
  | nil => rw [replace_nil, replace_nil]
  | char c cs hnone ih =>
    rw [names_of_no_marker hnone] at hagree
    rw [replace_cons hnone, replace_cons hnone, ih hagree]
  | marker m n rest hm ih =>
    rw [hm.names] at hagree
    have hn := hagree n List.mem_cons_self
    rcases hv : fill n s with ⟨e | v, after⟩
    · rw [replace_append_of_error hm hv, replace_append_of_error hm (hn.symm.trans hv)]
    · obtain rfl := restores _ _ _ _ hv
      rw [replace_append_of_ok hm hv, replace_append_of_ok hm (hn.symm.trans hv),
        ih fun k hk => hagree k (List.mem_cons_of_mem n hk)]

end Replacing

end Marker

/-- Appends texts in order; `isFirst` tells whether the first of them opens the section. -/
def appendChunks (isFirst : Bool) (out : Text) : List Text → Text
  | [] => out
  | e :: es => appendChunks false (appendChunk out e isFirst) es

/-- The text of a section, from its filled chunks. -/
def joinChunks (es : List Text) : Text :=
  appendChunks true [] es

/-- The sections that the chunks refer to, in order, repetitions included. -/
def Section.markers (s : Section) : List SectionName :=
  s.chunks.flatMap Marker.names

section AllFilled
variable {R R' : SectionName → Text → Prop} {chunks es : List Text}

theorem forall₂_filled_imp (h : List.Forall₂ (Marker.Filled R) chunks es)
    (himp : ∀ n ∈ chunks.flatMap Marker.names, ∀ v, R n v → R' n v) :
    List.Forall₂ (Marker.Filled R') chunks es := by
  induction h with
  | nil => exact .nil
  | cons filled _ ih =>
    rw [List.flatMap_cons] at himp
    exact .cons (filled.imp fun n hn => himp n (List.mem_append_left _ hn))
      (ih fun n hn => himp n (List.mem_append_right _ hn))

theorem exists_of_forall₂_filled (h : List.Forall₂ (Marker.Filled R) chunks es) :
    ∀ n ∈ chunks.flatMap Marker.names, ∃ v, R n v := by
  induction h with
  | nil => simp
  | cons filled _ ih =>
    intro n hn
    rcases List.mem_append.1 (List.flatMap_cons ▸ hn) with hn | hn
    · exact filled.exists_of_mem_names n hn
    · exact ih n hn

end AllFilled

section Chunks
variable {σ : Type} {fill fill' : SectionName → σ → Except Fault Text × σ} {s s' : σ} {e : Fault}

theorem fillChunks_eq_ok_iff (restores : Marker.Restores fill) {chunks : List Text}
    {isFirst : Bool} {out t : Text} :
    fillChunks fill chunks isFirst out s = (.ok t, s') ↔
      s' = s ∧ ∃ es, List.Forall₂ (Marker.Filled fun n v => fill n s = (.ok v, s)) chunks es ∧
        t = appendChunks isFirst out es := by
  induction chunks generalizing isFirst out with
  | nil =>
    simp only [fillChunks, List.forall₂_nil_left_iff, exists_eq_left, appendChunks]
    constructor
    · intro h
      cases h
      exact ⟨rfl, rfl⟩
    · rintro ⟨rfl, rfl⟩
      rfl
  | cons chunk chunks ih =>
    rw [fillChunks]
    constructor
    · intro h
      split at h
      · cases h
      · rename_i u s₁ hu
        obtain ⟨rfl, filled⟩ := (Marker.replace_eq_ok_iff restores).1 hu
        obtain ⟨rfl, es, hes, rfl⟩ := ih.1 h
        exact ⟨rfl, u :: es, .cons filled hes, rfl⟩
    · intro hfilled
      obtain ⟨rfl, es, hes, rfl⟩ := hfilled
      cases hes with
      | cons filled hes =>
        rw [(Marker.replace_eq_ok_iff restores).2 ⟨rfl, filled⟩]
        exact ih.2 ⟨rfl, _, hes, rfl⟩

theorem firstFailure_of_fillChunks (restores : Marker.Restores fill) {chunks : List Text}
    {isFirst : Bool} {out : Text} (h : fillChunks fill chunks isFirst out s = (.error e, s')) :
    Marker.FirstFailure fill s (chunks.flatMap Marker.names) e s' := by
  induction chunks generalizing isFirst out with
  | nil => cases h
  | cons chunk chunks ih =>
    rw [fillChunks] at h
    rw [List.flatMap_cons]
    split at h
    · rename_i hr
      cases h
      exact (Marker.firstFailure_of_replace restores hr).append_right _
    · rename_i u s₁ hu
      obtain ⟨rfl, filled⟩ := (Marker.replace_eq_ok_iff restores).1 hu
      exact (ih h).append_left _ filled.exists_of_mem_names

theorem fillChunks_congr (restores : Marker.Restores fill) {chunks : List Text} {isFirst : Bool}
    {out : Text} (hagree : ∀ n ∈ chunks.flatMap Marker.names, fill n s = fill' n s) :
    fillChunks fill chunks isFirst out s = fillChunks fill' chunks isFirst out s := by
  induction chunks generalizing isFirst out with
  | nil => rfl
  | cons chunk chunks ih =>
    rw [List.flatMap_cons] at hagree
    rw [fillChunks, fillChunks,
      ← Marker.replace_congr restores fun n hn => hagree n (List.mem_append_left _ hn)]
    split
    · rfl
    · rename_i u s₁ hu
      obtain ⟨rfl, _⟩ := (Marker.replace_eq_ok_iff restores).1 hu
      exact ih fun n hn => hagree n (List.mem_append_right _ hn)

end Chunks

end Literate
