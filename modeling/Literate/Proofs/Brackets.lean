import Literate.Marker
import Literate.Proofs.Characters

/-!
# Runs of characters in brackets

`Marker.bracketed? p` reads `<<…>>` or `<<#…>>` around a run of characters of the class `p`. For a
class without `#` and `>` it reads exactly the texts that are written so, and in one way only.
Markers are the case of the characters of section names.
-/

namespace Literate

/-- What stands between the brackets of a marker. -/
def Piece.inner : Piece → Text
  | char _ => []
  | marker hash bare => if hash then '#' :: bare else bare

namespace Marker

theorem source_append (hash : Bool) (bare rest : Text) :
    (Piece.marker hash bare).source ++ rest =
      '<' :: '<' :: ((Piece.marker hash bare).inner ++ '>' :: '>' :: rest) := by
  cases hash <;> simp [Piece.source, Piece.inner]

section Class
variable {p : Char → Bool} {bare rest t : Text}

theorem source_shape (hash : Bool) (hlt : '<' ∉ bare) :
    ∃ w, (Piece.marker hash bare).source = '<' :: '<' :: w ∧ w ≠ [] ∧ '<' ∉ w := by
  cases hash with
  | true => exact ⟨_, rfl, by simp, by simpa using hlt⟩
  | false => exact ⟨_, rfl, by simp, by simpa using hlt⟩

theorem run?_append (hgt : p '>' = false) (nonempty : bare ≠ []) (chars : ∀ c ∈ bare, p c = true)
    (rest : Text) : run? p (bare ++ '>' :: '>' :: rest) = some (bare, rest) := by
  have hstop : ∀ c ∈ ('>' :: '>' :: rest).head?, p c = false := by simpa using hgt
  unfold run?
  rw [takeWhile_run chars hstop, dropWhile_run chars hstop]
  cases bare with
  | nil => exact absurd rfl nonempty
  | cons c cs => rfl

theorem bracketed?_source_append (hash : Bool) (hhash : p '#' = false) (hgt : p '>' = false)
    (nonempty : bare ≠ []) (chars : ∀ c ∈ bare, p c = true) (rest : Text) :
    bracketed? p ((Piece.marker hash bare).source ++ rest) = some (.marker hash bare, rest) := by
  have hrun := run?_append hgt nonempty chars rest
  rw [source_append]
  cases hash with
  | true => simp [Piece.inner, bracketed?, hrun]
  | false =>
    -- the run does not start with `#`, so only the second pattern applies
    obtain ⟨c, cs, rfl⟩ := List.exists_cons_of_ne_nil nonempty
    have hc : c ≠ '#' := by
      rintro rfl
      exact not_mem_of_class chars hhash List.mem_cons_self
    simp only [List.cons_append] at hrun
    simp [Piece.inner, bracketed?, hrun, hc]

theorem inner_inj {hash hash' : Bool} {bare' : Text} (hfree : '#' ∉ bare) (hfree' : '#' ∉ bare')
    (h : (Piece.marker hash bare).inner = (Piece.marker hash' bare').inner) :
    hash = hash' ∧ bare = bare' := by
  cases hash with
  | true =>
    cases hash' with
    | true => exact ⟨rfl, (List.cons.inj h).2⟩
    | false =>
      have hbare : '#' :: bare = bare' := h
      exact absurd (hbare ▸ List.mem_cons_self) hfree'
  | false =>
    cases hash' with
    | true =>
      have hbare : bare = '#' :: bare' := h
      exact absurd (hbare ▸ List.mem_cons_self) hfree
    | false => exact ⟨rfl, h⟩

/-- The brackets show where the run ends and whether there is a `#`. -/
theorem source_append_inj (hhash : p '#' = false) (hgt : p '>' = false) {hash hash' : Bool}
    {bare' rest' : Text} (chars : ∀ c ∈ bare, p c = true) (chars' : ∀ c ∈ bare', p c = true)
    (h : (Piece.marker hash bare).source ++ rest = (Piece.marker hash' bare').source ++ rest') :
    hash = hash' ∧ bare = bare' ∧ rest = rest' := by
  have hinner : ∀ {hash : Bool} {bare : Text}, (∀ c ∈ bare, p c = true) →
      '>' ∉ (Piece.marker hash bare).inner := by
    intro hash bare chars
    have := not_mem_of_class chars hgt
    cases hash <;> simpa [Piece.inner] using this
  simp only [source_append, List.cons.injEq, true_and] at h
  obtain ⟨hbare, hrest⟩ := eq_of_append_cons (hinner chars) (hinner chars') h
  obtain ⟨hsame, hrun⟩ :=
    inner_inj (not_mem_of_class chars hhash) (not_mem_of_class chars' hhash) hbare
  exact ⟨hsame, hrun, (List.cons.inj hrest).2⟩

end Class

end Marker

end Literate
