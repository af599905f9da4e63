import Literate.SectionName

/-! Markers: `<<name>>` or `<<#name>>` in the text of a block stands for a section. A text is cut
into pieces, single characters and markers, whose sources make up the text; finding and replacing
markers are both read off the pieces. -/

namespace Literate

inductive Piece where
  | char (c : Char)
  | marker (hash : Bool) (bare : Text)
  deriving DecidableEq, Repr

namespace Piece

def source : Piece → Text
  | char c => [c]
  | marker hash bare => "<<".toList ++ (if hash then ['#'] else []) ++ bare ++ ">>".toList

/-- The section that a marker stands for. -/
def name? : Piece → Option SectionName
  | char _ => none
  | marker _ bare => some (SectionName.ofText bare)

end Piece

namespace Marker

/-- A run of characters of the class followed by `>>`, and what comes after. -/
def run? (p : Char → Bool) (cs : Text) : Option (Text × Text) :=
  match cs.takeWhile p, cs.dropWhile p with
  | [], _ => none
  | run, '>' :: '>' :: rest => some (run, rest)
  | _, _ => none

/-- A run of characters of the class in the brackets of a marker, and what comes after. -/
def bracketed? (p : Char → Bool) : Text → Option (Piece × Text)
  | '<' :: '<' :: '#' :: cs => (run? p cs).map fun (bare, rest) => (.marker true bare, rest)
  | '<' :: '<' :: cs => (run? p cs).map fun (bare, rest) => (.marker false bare, rest)
  | _ => none

/-- A marker at the start of the text, and what comes after. -/
def marker? : Text → Option (Piece × Text) :=
  bracketed? isSectionChar

section Class
variable {p : Char → Bool} {t rest : Text} {piece : Piece}

theorem eq_of_run? {cs bare : Text} (h : run? p cs = some (bare, rest)) :
    bare ≠ [] ∧ (∀ c ∈ bare, p c = true) ∧ cs = bare ++ '>' :: '>' :: rest := by
  unfold run? at h
  split at h
  · simp at h
  · rename_i hd hne
    simp only [Option.some.injEq, Prod.mk.injEq] at h
    obtain ⟨rfl, rfl⟩ := h
    refine ⟨hne, List.all_eq_true.1 List.all_takeWhile, ?_⟩
    rw [← hd]
    exact List.takeWhile_append_dropWhile.symm
  · simp at h

theorem eq_of_bracketed? (h : bracketed? p t = some (piece, rest)) :
    ∃ hash bare, piece = .marker hash bare ∧ bare ≠ [] ∧ (∀ c ∈ bare, p c = true) ∧
      t = piece.source ++ rest := by
  unfold bracketed? at h
  split at h
  · obtain ⟨⟨bare, r⟩, hr, he⟩ := Option.map_eq_some_iff.1 h
    cases he
    obtain ⟨nonempty, chars, rfl⟩ := eq_of_run? hr
    exact ⟨true, bare, rfl, nonempty, chars, by simp [Piece.source]⟩
  · obtain ⟨⟨bare, r⟩, hr, he⟩ := Option.map_eq_some_iff.1 h
    cases he
    obtain ⟨nonempty, chars, rfl⟩ := eq_of_run? hr
    exact ⟨false, bare, rfl, nonempty, chars, by simp [Piece.source]⟩
  · cases h

theorem length_of_bracketed? (h : bracketed? p t = some (piece, rest)) :
    rest.length < t.length := by
  obtain ⟨hash, bare, rfl, _, _, rfl⟩ := eq_of_bracketed? h
  simp only [Piece.source, List.length_append]
  have hopen : "<<".toList.length = 2 := rfl
  omega

end Class

/-- Cuts a text from left to right, taking a marker wherever one starts. -/
def pieces : Text → List Piece
  | [] => []
  | c :: cs =>
    match h : marker? (c :: cs) with
    | some (p, rest) =>
      have := length_of_bracketed? h
      p :: pieces rest
    | none => .char c :: pieces cs
termination_by t => t.length
decreasing_by
  · assumption
  · exact Nat.lt_succ_self cs.length

/-- A marker found in a text: the section, and the bytes that it takes up. -/
structure Found where
  name : SectionName
  start : Nat
  stop : Nat
  deriving DecidableEq, Repr

def foundFrom (pos : Nat) : List Piece → List Found
  | [] => []
  | p :: ps =>
    let stop := pos + Text.byteLength p.source
    match p.name? with
    | some name => ⟨name, pos, stop⟩ :: foundFrom stop ps
    | none => foundFrom stop ps

def find (t : Text) : List Found :=
  foundFrom 0 (pieces t)

/-- The sections that a text refers to, in order, repetitions included. -/
def names (t : Text) : List SectionName :=
  (pieces t).filterMap Piece.name?

/-- Keeps the first of equal entries. -/
def distinctAfter (seen : List SectionName) : List SectionName → List SectionName
  | [] => []
  | n :: ns => if n ∈ seen then distinctAfter seen ns else n :: distinctAfter (n :: seen) ns

/-- The sections that a text refers to, each once, by first occurrence. -/
def references (t : Text) : List SectionName :=
  distinctAfter [] (names t)

/-- Puts a text from `fill` in place of each marker. The state of `fill` is handed on from marker
to marker; its first failure ends the work. -/
def fillPieces {σ ε : Type} (fill : SectionName → σ → Except ε Text × σ) :
    List Piece → σ → Except ε Text × σ
  | [], s => (.ok [], s)
  | p :: ps, s =>
    match p.name? with
    | none =>
      match fillPieces fill ps s with
      | (.ok t, s) => (.ok (p.source ++ t), s)
      | (.error e, s) => (.error e, s)
    | some name =>
      match fill name s with
      | (.error e, s) => (.error e, s)
      | (.ok u, s) =>
        match fillPieces fill ps s with
        | (.ok t, s) => (.ok (u ++ t), s)
        | (.error e, s) => (.error e, s)

def replace {σ ε : Type} (fill : SectionName → σ → Except ε Text × σ) (t : Text) (s : σ) :
    Except ε Text × σ :=
  fillPieces fill (pieces t) s

end Marker

end Literate
