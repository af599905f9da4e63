import Literate.Proofs.LabelGrammar
import Literate.Proofs.Occurrences

/-!
# One spelling of section names

Labels and markers read section names by different means, but they agree on which texts are names
and on the section that a name stands for. So whatever section a label can define, a marker can
refer to, with or without `#`, and the other way round.
-/

namespace Literate

namespace Label
variable {file name n cs : Text}

theorem place_of_isSectionText (name_chars : ∀ c ∈ name, isFileChar c = true)
    (h : IsSectionText n) : Place (' ' :: (name ++ '#' :: n)) name (some n) := by
  have place : Place ([' '] ++ (name ++ (hashed (some n) ++ []))) name (some n) := by
    refine .intro (List.forall_mem_singleton.2 rfl) name_chars ?_ (by simp)
    rintro bare ⟨⟩
    exact h
  simpa [hashed] using place

theorem append_eq_self_of_blank {bare after : Text} (after_blank : ∀ c ∈ after, isBlank c = true)
    (hend : ∀ c ∈ (bare ++ after).getLast?, isBlank c = false) : after = [] := by
  rcases List.eq_nil_or_concat after with rfl | ⟨front, c, rfl⟩
  · rfl
  · have hblank := after_blank c (by simp)
    rw [hend c (by simp)] at hblank
    cases hblank

/-- The first `#` stands where the section begins, so the text after it is the section. -/
theorem isSectionText_of_place {name' : Text} {part : Option Text}
    (name_chars : ∀ c ∈ name, isFileChar c = true) (hend : ∀ c ∈ n.getLast?, isBlank c = false)
    (place : Place cs name' part) (hcs : cs = ' ' :: (name ++ '#' :: n)) :
    part = some n ∧ IsSectionText n := by
  cases place with
  | @intro before _ after _ before_blank name'_chars part_text after_blank =>
    have hbefore : '#' ∉ before := not_mem_of_class before_blank (by decide)
    have hname' : '#' ∉ name' := not_mem_of_class name'_chars (by decide)
    have hname : '#' ∉ ' ' :: name := by
      simpa using not_mem_of_class name_chars (d := '#') (by decide)
    cases part with
    | none =>
      have hafter : '#' ∉ after := not_mem_of_class after_blank (by decide)
      have hmem : '#' ∈ before ++ (name' ++ (hashed none ++ after)) := by simp [hcs]
      simp [hashed, hbefore, hname', hafter] at hmem
    | some bare =>
      have hsplit : (before ++ name') ++ '#' :: (bare ++ after) = (' ' :: name) ++ '#' :: n := by
        simpa [hashed] using hcs
      obtain ⟨_, rfl⟩ := eq_of_append_cons (by simp [hbefore, hname']) hname hsplit
      obtain rfl := append_eq_self_of_blank after_blank hend
      rw [List.append_nil]
      exact ⟨rfl, part_text bare rfl⟩

theorem sectionLabel_eq (name n : Text) :
    " > ".toList ++ name ++ '#' :: n = [' '] ++ '>' :: ' ' :: (name ++ '#' :: n) := by
  simp

theorem sectionName_of_read (name_chars : ∀ c ∈ name, isFileChar c = true)
    (hend : ∀ c ∈ n.getLast?, isBlank c = false) {a : Label}
    (h : read file (" > ".toList ++ name ++ '#' :: n) = .ok a) :
    IsSectionText n ∧ a.sectionName = .ofText n := by
  rw [sectionLabel_eq] at h
  rcases hd : destination (' ' :: (name ++ '#' :: n)) with ⟨name', part, rest⟩
  by_cases hrest : rest = []
  · subst hrest
    rw [read_directed_of_nil (by decide) hd] at h
    cases h
    obtain ⟨rfl, hn⟩ := isSectionText_of_place name_chars hend (place_of_destination hd) rfl
    exact ⟨hn, rfl⟩
  · rw [read_directed_of_ne_nil (by decide) hd hrest] at h
    cases h

theorem read_of_isSectionText (name_chars : ∀ c ∈ name, isFileChar c = true)
    (h : IsSectionText n) :
    ∃ a, read file (" > ".toList ++ name ++ '#' :: n) = .ok a := by
  rw [sectionLabel_eq]
  exact ⟨_, read_directed_of_nil (by decide)
    (destination_of_place (place_of_isSectionText name_chars h))⟩

/-- A label that ends in `#` and a text can be read exactly when the text can be a name. -/
theorem exists_read_iff_isSectionText (name_chars : ∀ c ∈ name, isFileChar c = true)
    (hend : ∀ c ∈ n.getLast?, isBlank c = false) :
    (∃ a, read file (" > ".toList ++ name ++ '#' :: n) = .ok a) ↔ IsSectionText n := by
  constructor
  · rintro ⟨a, ha⟩
    exact (sectionName_of_read name_chars hend ha).1
  · exact read_of_isSectionText name_chars

end Label

namespace Marker
variable {n : Text}

/-- The text is one marker, and nothing else stands around it. -/
def IsOneMarker (t : Text) : Prop :=
  ∃ m, find t = [m] ∧ m.start = 0 ∧ m.stop = Text.byteLength t

theorem find_source (hash : Bool) (h : IsSectionText n) :
    find (Piece.marker hash n).source =
      [⟨.ofText n, 0, Text.byteLength (Piece.marker hash n).source⟩] := by
  have hfound := (Spells.intro hash h.1 h.2).foundFrom 0 []
  simpa [find, pieces_nil, foundFrom] using hfound

theorem spells_of_isOneMarker {t : Text} (h : IsOneMarker t) : ∃ k, Spells t k := by
  obtain ⟨m, hm, hstart, hstop⟩ := h
  have hoccurs : Occurs t m := mem_find_iff.1 (by simp [hm])
  cases hoccurs with
  | @intro before w after k split spells =>
    subst split
    simp only [Text.byteLength_append] at hstart hstop
    obtain rfl := Text.byteLength_eq_zero.1 hstart
    obtain rfl : after = [] := Text.byteLength_eq_zero.1 (by omega)
    exact ⟨k, by simpa using spells⟩

theorem isSectionText_of_spells {hash : Bool} {k : SectionName} (hfree : '#' ∉ n)
    (h : Spells (Piece.marker hash n).source k) : IsSectionText n := by
  generalize ht : (Piece.marker hash n).source = t at h
  cases h with
  | @intro hash' bare nonempty chars =>
    have hsource := congrArg (· ++ []) ht
    simp only [source_append, List.cons.injEq, true_and] at hsource
    have hbare : '#' ∉ bare := not_mem_of_class chars (by decide)
    obtain ⟨_, rfl⟩ := inner_inj hfree hbare (List.append_cancel_right hsource)
    exact ⟨nonempty, chars⟩

/-- A text in brackets is one marker exactly when it can be a name. -/
theorem isOneMarker_source_iff (hash : Bool) (hfree : '#' ∉ n) :
    IsOneMarker (Piece.marker hash n).source ↔ IsSectionText n := by
  constructor
  · intro h
    obtain ⟨k, hk⟩ := spells_of_isOneMarker h
    exact isSectionText_of_spells hfree hk
  · intro h
    exact ⟨_, find_source hash h, rfl, rfl⟩

end Marker

/-- For a text without `#` and without a blank at its end, a label with this section, a marker
around it and a marker with `#` around it are all well formed or all not. If they are, then they
are about the same section. -/
theorem exists_read_iff_isOneMarker (file name n : Text)
    (name_chars : ∀ c ∈ name, isFileChar c = true) (hfree : '#' ∉ n)
    (hend : ∀ c ∈ n.getLast?, isBlank c = false) :
    let label := " > ".toList ++ name ++ '#' :: n
    let plain := "<<".toList ++ n ++ ">>".toList
    let hashed := "<<#".toList ++ n ++ ">>".toList
    ((∃ a, Label.read file label = .ok a) ↔ Marker.IsOneMarker plain) ∧
      (Marker.IsOneMarker plain ↔ Marker.IsOneMarker hashed) ∧
      ∀ a, Label.read file label = .ok a →
        Marker.find plain = [⟨a.sectionName, 0, Text.byteLength plain⟩] ∧
          Marker.find hashed = [⟨a.sectionName, 0, Text.byteLength hashed⟩] := by
  intro label plain hashed
  have hplain : plain = (Piece.marker false n).source := by simp [plain, Piece.source]
  have hhashed : hashed = (Piece.marker true n).source := by simp [hashed, Piece.source]
  rw [hplain, hhashed, Marker.isOneMarker_source_iff false hfree,
    Marker.isOneMarker_source_iff true hfree]
  refine ⟨Label.exists_read_iff_isSectionText name_chars hend, .rfl, fun a ha => ?_⟩
  obtain ⟨hn, hname⟩ := Label.sectionName_of_read name_chars hend ha
  rw [hname]
  exact ⟨Marker.find_source false hn, Marker.find_source true hn⟩

/-- Characters of more than one byte, and a name that starts like the one of `root`. -/
theorem exists_read_iff_isOneMarker_accented :
    let n := "default/größe".toList
    Label.read ['m'] (" > ".toList ++ "a.js".toList ++ '#' :: n) =
        .ok ⟨none, "a.js".toList, .named n⟩ ∧
      Marker.find ("<<".toList ++ n ++ ">>".toList) = [⟨.named n, 0, 19⟩] ∧
      Marker.find ("<<#".toList ++ n ++ ">>".toList) = [⟨.named n, 0, 20⟩] := by
  intro n
  have hread : Label.read ['m'] (" > ".toList ++ "a.js".toList ++ '#' :: n) =
      .ok ⟨none, "a.js".toList, .named n⟩ := by decide +kernel
  have hchars : "a.js".toList.all isFileChar = true := by decide +kernel
  have hlast : n.getLast? = some 'e' := by decide +kernel
  have hend : ∀ c ∈ n.getLast?, isBlank c = false := by
    rw [hlast]
    rintro c ⟨⟩
    decide
  have hplain : Text.byteLength ("<<".toList ++ n ++ ">>".toList) = 19 := by decide +kernel
  have hhashed : Text.byteLength ("<<#".toList ++ n ++ ">>".toList) = 20 := by decide +kernel
  obtain ⟨_, _, hfind⟩ := exists_read_iff_isOneMarker ['m'] "a.js".toList n
    (List.all_eq_true.1 hchars) (by decide +kernel) hend
  have hmarkers := hfind _ hread
  rw [hplain, hhashed] at hmarkers
  exact ⟨hread, hmarkers⟩

end Literate
