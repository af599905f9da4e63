import Literate.Proofs.LabelGrammar
import Literate.Proofs.Trimming

/-!
# White space around the parts of a label

White space before the `>` is trimmed with the language and never matters. After the `>` and at the
end only blanks are skipped, while any other white space is left over. So spacing out a label keeps
what it says exactly when the spaces after the `>` and at the end are blanks.
-/

namespace Literate.Label

variable {file language cs w before core after name : Text} {part : Option Text} {a : Label}

/-- What a destination consists of is free of white space. -/
theorem isWhite_of_mem_named (name_chars : ∀ c ∈ name, isFileChar c = true)
    (part_text : ∀ bare ∈ part, IsSectionText bare) :
    ∀ c ∈ name ++ hashed part, isWhite c = false := by
  intro c hc
  rcases List.mem_append.1 hc with hc | hc
  · have hchar := name_chars c hc
    simp only [isFileChar, Bool.and_eq_true, Bool.not_eq_true'] at hchar
    exact hchar.1.1
  · cases part with
    | none => cases hc
    | some bare =>
      rcases List.mem_cons.1 hc with hhash | hc
      · rw [hhash]
        decide
      · have hchar := (part_text bare rfl).2 c hc
        cases hwhite : isWhite c with
        | false => rfl
        | true =>
          rw [isSectionChar_of_isWhite hwhite] at hchar
          cases hchar

/-- A destination in white space is one exactly when all of that is blank. -/
theorem place_between_iff (hcore : Text.IsTrimmed core)
    (hbefore : ∀ c ∈ before, isWhite c = true) (hafter : ∀ c ∈ after, isWhite c = true) :
    Place (before ++ core ++ after) name part ↔
      Place core name part ∧ ∀ c ∈ before ++ after, isBlank c = true := by
  constructor
  · intro h
    generalize hcs : before ++ core ++ after = cs at h
    cases h with
    | @intro front _ back _ front_blank name_chars part_text back_blank =>
      have hwhite : ∀ c, isBlank c = true → isWhite c = true := fun c => isWhite_of_isBlank
      have hnamed := isWhite_of_mem_named name_chars part_text
      have hsame : before ++ core ++ after = front ++ (name ++ hashed part) ++ back := by
        rw [hcs]
        simp only [List.append_assoc]
      obtain ⟨hcore', hspace⟩ := Text.eq_of_between hbefore hafter hcore
        (fun c hc => hwhite c (front_blank c hc)) (fun c hc => hwhite c (back_blank c hc))
        (Text.isTrimmed_of_forall hnamed) hsame
      have hplace := Place.intro (List.forall_mem_nil _) name_chars part_text (List.forall_mem_nil _)
      rw [List.append_nil, List.nil_append, ← hcore'] at hplace
      refine ⟨hplace, ?_⟩
      rw [hspace]
      exact List.forall_mem_append.2 ⟨front_blank, back_blank⟩
  · intro h
    obtain ⟨hplace, hblank⟩ := h
    obtain ⟨hbefore, hafter⟩ := List.forall_mem_append.1 hblank
    cases hplace with
    | @intro front _ back _ front_blank name_chars part_text back_blank =>
      have hspaced : Place (before ++ front ++ (name ++ (hashed part ++ (back ++ after)))) name part :=
        .intro (List.forall_mem_append.2 ⟨hbefore, front_blank⟩) name_chars part_text
          (List.forall_mem_append.2 ⟨back_blank, hafter⟩)
      simpa only [List.append_assoc] using hspaced

theorem read_directed_eq_ok_iff (undirected : '>' ∉ language) :
    read file (language ++ '>' :: cs) = .ok a ↔ ∃ name part, Place cs name part ∧
      a = ⟨tag language, if name = [] then file else name,
        (part.map SectionName.ofText).getD .root⟩ := by
  constructor
  · intro h
    rcases hdest : destination cs with ⟨name, part, rest⟩
    by_cases hrest : rest = []
    · subst hrest
      rw [read_directed_of_nil undirected hdest] at h
      cases h
      exact ⟨name, part, place_of_destination hdest, rfl⟩
    · rw [read_directed_of_ne_nil undirected hdest hrest] at h
      cases h
  · intro h
    obtain ⟨name, part, hplace, rfl⟩ := h
    exact read_directed_of_nil undirected (destination_of_place hplace)

theorem tag_append_white (hw : ∀ c ∈ w, isWhite c = true) (t : Text) :
    tag (t ++ w) = tag t := by
  rw [tag, Text.trim_append_white hw, tag]

/-- A label with white space put before the `>`, after it and at the end is read as the label
without it, provided that all white space from the `>` on is blank; otherwise it is refused. -/
theorem read_spaced_iff (undirected : '>' ∉ language) (hcore : Text.IsTrimmed core)
    (hw : ∀ c ∈ w, isWhite c = true) (hbefore : ∀ c ∈ before, isWhite c = true)
    (hafter : ∀ c ∈ after, isWhite c = true) :
    read file (language ++ w ++ '>' :: (before ++ core ++ after)) = .ok a ↔
      read file (language ++ '>' :: core) = .ok a ∧ ∀ c ∈ before ++ after, isBlank c = true := by
  have hundirected : '>' ∉ language ++ w := by
    intro hmem
    rcases List.mem_append.1 hmem with hmem | hmem
    · exact undirected hmem
    · exact not_mem_of_class hw (by decide) hmem
  rw [read_directed_eq_ok_iff hundirected, read_directed_eq_ok_iff undirected, tag_append_white hw]
  constructor
  · intro h
    obtain ⟨name, part, hplace, ha⟩ := h
    obtain ⟨hplace, hblank⟩ := (place_between_iff hcore hbefore hafter).1 hplace
    exact ⟨⟨name, part, hplace, ha⟩, hblank⟩
  · intro h
    obtain ⟨⟨name, part, hplace, ha⟩, hblank⟩ := h
    exact ⟨name, part, (place_between_iff hcore hbefore hafter).2 ⟨hplace, hblank⟩, ha⟩

/-- An ideographic space before the `>`, and only blanks after it. -/
theorem read_spaced_wide :
    read defaultFile ("js".toList ++ ['\u3000'] ++
        '>' :: (" \t".toList ++ "a.js#x".toList ++ "\r\n".toList)) =
      .ok ⟨some "js".toList, "a.js".toList, .named ['x']⟩ := by
  have hcore : Text.IsTrimmed "a.js#x".toList := by
    constructor
    · intro c hc
      cases hc
      decide
    · intro c hc
      cases hc
      decide
  apply (read_spaced_iff (by decide) hcore (List.all_eq_true.1 rfl) (List.all_eq_true.1 rfl)
    (List.all_eq_true.1 rfl)).2
  exact ⟨by decide +kernel, List.all_eq_true.1 rfl⟩

/-- A no-break space is white space, but a label is refused for it after the `>`. -/
theorem read_spaced_refused :
    isWhite '\u00a0' = true ∧
      read defaultFile "js>a.js".toList = .ok ⟨some "js".toList, "a.js".toList, .root⟩ ∧
      read defaultFile "js>\u00a0a.js".toList =
        .error (.label "js>\u00a0a.js".toList none (.unexpected "\u00a0a.js".toList)) :=
  ⟨by decide, by decide +kernel, by decide +kernel⟩

end Literate.Label
