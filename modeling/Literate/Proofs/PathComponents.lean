import Literate.Path
import Literate.Proofs.Lines
import Mathlib.Data.List.Infix

/-!
# Components of paths

The components of a path can be read off the pieces between its separators: a root or a leading `.`,
and then one component for each piece that is neither empty nor `.`. From this follow the components
of a joined path and those of the ancestors of a path.
-/

namespace Literate

namespace Text

theorem dropEnd_concat (c : Char) (t : Text) : dropEnd c (t ++ [c]) = t := by
  simp [dropEnd]

theorem dropEnd_append_cons {c d : Char} {s t : Text} (ht : t ≠ []) :
    dropEnd c (s ++ d :: t) = s ++ d :: dropEnd c t := by
  have hlast : (s ++ d :: t).getLast? = t.getLast? := by
    rw [List.getLast?_append_of_ne_nil _ (by simp), List.getLast?_cons_of_ne_nil ht]
  rw [dropEnd, dropEnd, hlast]
  split
  · rw [List.dropLast_append_of_ne_nil (by simp), List.dropLast_cons_of_ne_nil ht]
  · rfl

theorem eq_dropEnd_or_concat (c : Char) (t : Text) :
    t = dropEnd c t ∨ t = dropEnd c t ++ [c] := by
  rw [dropEnd]
  split
  · rename_i hlast
    obtain ⟨s, hs⟩ := List.getLast?_eq_some_iff.1 hlast
    right
    rw [hs, List.dropLast_concat]
  · exact .inl rfl

end Text

/-- The component that a piece between separators stands for, unless it stands for none. -/
def Component.ofPiece? (leading : Bool) (s : Text) : Option Component :=
  if s = [] then none
  else if s = ['.'] then if leading then some .current else none
  else if s = ['.', '.'] then some .parent
  else some (.normal s)

/-- Neither empty nor one of the names that every directory has. -/
def IsProper (s : Text) : Prop :=
  s ≠ [] ∧ s ≠ ['.'] ∧ s ≠ ['.', '.']

instance (s : Text) : Decidable (IsProper s) :=
  inferInstanceAs (Decidable (_ ∧ _ ∧ _))

theorem piece_cases (s : Text) : s = [] ∨ s = ['.'] ∨ s = ['.', '.'] ∨ IsProper s := by
  by_cases hnil : s = []
  · exact .inl hnil
  · by_cases hdot : s = ['.']
    · exact .inr (.inl hdot)
    · by_cases hdots : s = ['.', '.']
      · exact .inr (.inr (.inl hdots))
      · exact .inr (.inr (.inr ⟨hnil, hdot, hdots⟩))

namespace Component

@[simp] theorem ofPiece?_nil (leading : Bool) : ofPiece? leading [] = none := rfl

@[simp] theorem ofPiece?_dot (leading : Bool) :
    ofPiece? leading ['.'] = if leading then some .current else none := rfl

@[simp] theorem ofPiece?_dots (leading : Bool) : ofPiece? leading ['.', '.'] = some .parent := rfl

theorem ofPiece?_of_isProper (leading : Bool) {s : Text} (h : IsProper s) :
    ofPiece? leading s = some (.normal s) := by
  rw [ofPiece?, if_neg h.1, if_neg h.2.1, if_neg h.2.2]

end Component

namespace Path

def ofPieces (leading : Bool) : List Text → List Component
  | [] => []
  | s :: ss => (Component.ofPiece? leading s).toList ++ ofPieces false ss

def pieces (p : Path) : List Text :=
  Text.splitOn '/' p.text

/-- The components that say where to go, without those that say where to start. -/
def steps (p : Path) : List Component :=
  ofPieces false p.pieces

theorem inits_eq_cons {α : Type} (l : List α) : l.inits = [] :: l.inits.tail := by
  cases l <;> rfl

theorem getLast?_inits {α : Type} (l : List α) : l.inits.getLast? = some l := by
  rcases List.eq_nil_or_concat l with rfl | ⟨before, a, rfl⟩
  · rfl
  · simp [List.inits_append]

section Pieces
variable {s : Text} {ss rs : List Text}

theorem ofPieces_append (leading : Bool) (hss : ss ≠ []) :
    ofPieces leading (ss ++ rs) = ofPieces leading ss ++ ofPieces false rs := by
  induction ss generalizing leading with
  | nil => exact absurd rfl hss
  | cons s ss ih =>
    by_cases hnil : ss = []
    · subst hnil
      simp [ofPieces]
    · rw [List.cons_append, ofPieces, ofPieces, ih false hnil, List.append_assoc]

theorem spansFrom_cons (pos : Nat) (leading : Bool) :
    spansFrom pos leading (s :: ss) =
      ((Component.ofPiece? leading s).map (⟨·, pos, pos + s.length⟩)).toList ++
        spansFrom (pos + s.length + 1) false ss := by
  rw [spansFrom]
  rcases piece_cases s with rfl | rfl | rfl | hs
  · rfl
  · cases leading <;> rfl
  · rfl
  · rw [if_neg hs.1, if_neg hs.2.1, if_neg hs.2.2, Component.ofPiece?_of_isProper leading hs]
    rfl

theorem map_component_spansFrom (pos : Nat) (leading : Bool) :
    (spansFrom pos leading ss).map Span.component = ofPieces leading ss := by
  induction ss generalizing pos leading with
  | nil => rfl
  | cons s ss ih =>
    rw [spansFrom_cons, List.map_append, ih, ofPieces]
    cases Component.ofPiece? leading s <;> rfl

theorem le_stop_of_mem_spansFrom {pos : Nat} {leading : Bool} {sp : Span}
    (h : sp ∈ spansFrom pos leading ss) : pos ≤ sp.stop := by
  induction ss generalizing pos leading with
  | nil => cases h
  | cons s ss ih =>
    rw [spansFrom_cons] at h
    rcases List.mem_append.1 h with h | h
    · obtain ⟨c, _, rfl⟩ : ∃ c, Component.ofPiece? leading s = some c ∧
          ⟨c, pos, pos + s.length⟩ = sp := by simpa using h
      exact Nat.le_add_right _ _
    · have := ih h
      omega

theorem mem_of_normal_mem_ofPieces {leading : Bool} {n : Text}
    (h : Component.normal n ∈ ofPieces leading ss) : n ∈ ss ∧ IsProper n := by
  induction ss generalizing leading with
  | nil => cases h
  | cons s ss ih =>
    rw [ofPieces] at h
    rcases List.mem_append.1 h with h | h
    · rcases piece_cases s with rfl | rfl | rfl | hs
      · simp at h
      · cases leading <;> simp at h
      · simp at h
      · rw [Component.ofPiece?_of_isProper leading hs] at h
        obtain rfl : n = s := by simpa using h
        exact ⟨List.mem_cons_self, hs⟩
    · exact ⟨List.mem_cons_of_mem _ (ih h).1, (ih h).2⟩

theorem normal_mem_ofPieces (hs : IsProper s) (h : s ∈ ss) (leading : Bool) :
    .normal s ∈ ofPieces leading ss := by
  induction ss generalizing leading with
  | nil => cases h
  | cons r ss ih =>
    rw [ofPieces, List.mem_append]
    rcases List.mem_cons.1 h with rfl | h
    · left
      rw [Component.ofPiece?_of_isProper leading hs]
      exact List.mem_singleton.2 rfl
    · exact .inr (ih h false)

theorem ofPieces_of_isProper (h : ∀ s ∈ ss, IsProper s) :
    ofPieces false ss = ss.map .normal := by
  induction ss with
  | nil => rfl
  | cons s ss ih =>
    obtain ⟨hs, hss⟩ := List.forall_mem_cons.1 h
    rw [ofPieces, Component.ofPiece?_of_isProper false hs, ih hss]
    rfl

theorem exists_names_of_parent_not_mem (h : .parent ∉ ofPieces false ss) :
    ∃ names : List Text, ofPieces false ss = names.map .normal := by
  induction ss with
  | nil => exact ⟨[], rfl⟩
  | cons s ss ih =>
    rw [ofPieces, List.mem_append, not_or] at h
    obtain ⟨names, hnames⟩ := ih h.2
    rw [ofPieces, hnames]
    rcases piece_cases s with rfl | rfl | rfl | hs
    · exact ⟨names, rfl⟩
    · exact ⟨names, rfl⟩
    · exact absurd List.mem_cons_self h.1
    · rw [Component.ofPiece?_of_isProper false hs]
      exact ⟨s :: names, rfl⟩

theorem splitOn_of_not_mem (hs : '/' ∉ s) : Text.splitOn '/' s = [s] := by
  rw [Text.splitOn_eq, List.splitOn_eq_singleton hs]

theorem take_intercalate (s : Text) (ss : List Text) :
    (['/'].intercalate (s :: ss)).take s.length = s := by
  cases ss with
  | nil => rw [List.intercalate_singleton, List.take_length]
  | cons r ss =>
    rw [List.intercalate_cons_of_ne_nil (by simp), List.append_assoc, List.take_left]

theorem take_intercalate_of_ne_nil (hss : ss ≠ []) (n : Nat) :
    (['/'].intercalate (s :: ss)).take (s.length + 1 + n) =
      s ++ '/' :: (['/'].intercalate ss).take n := by
  rw [List.intercalate_cons_of_ne_nil hss, List.append_assoc, Nat.add_assoc, List.take_append,
    List.take_of_length_le (by omega), Nat.add_sub_cancel_left, Nat.add_comm 1]
  rfl

/-- Cutting a path after one of its spans leaves the spans up to that one. -/
theorem map_take_spansFrom (pos : Nat) (leading : Bool) (hss : ∀ s ∈ ss, '/' ∉ s) :
    (spansFrom pos leading ss).map (fun sp =>
        spansFrom pos leading (Text.splitOn '/' ((['/'].intercalate ss).take (sp.stop - pos)))) =
      (spansFrom pos leading ss).inits.tail := by
  induction ss generalizing pos leading with
  | nil => rfl
  | cons s ss ih =>
    obtain ⟨hs, hrest⟩ := List.forall_mem_cons.1 hss
    -- A cut behind the first piece leaves that piece whole and cuts the rest as if it stood alone.
    have hlater : ∀ sp ∈ spansFrom (pos + s.length + 1) false ss,
        spansFrom pos leading
          (Text.splitOn '/' ((['/'].intercalate (s :: ss)).take (sp.stop - pos))) =
        ((Component.ofPiece? leading s).map (⟨·, pos, pos + s.length⟩)).toList ++
          spansFrom (pos + s.length + 1) false (Text.splitOn '/'
            ((['/'].intercalate ss).take (sp.stop - (pos + s.length + 1)))) := by
      intro sp hsp
      have hle := le_stop_of_mem_spansFrom hsp
      have hne : ss ≠ [] := by
        rintro rfl
        cases hsp
      have hstop : sp.stop - pos = s.length + 1 + (sp.stop - (pos + s.length + 1)) := by omega
      rw [hstop, take_intercalate_of_ne_nil hne, Text.splitOn_append_cons, splitOn_of_not_mem hs,
        List.singleton_append, spansFrom_cons]
    have hmap := congrArg
      (List.map (((Component.ofPiece? leading s).map (⟨·, pos, pos + s.length⟩)).toList ++ ·))
      (ih (pos + s.length + 1) false hrest)
    rw [List.map_map] at hmap
    rw [spansFrom_cons, List.map_append, List.map_congr_left hlater]
    refine Eq.trans (congrArg _ hmap) ?_
    cases hc : Component.ofPiece? leading s with
    | none => simp
    | some c =>
      have hfirst : spansFrom pos leading [s] = [⟨c, pos, pos + s.length⟩] := by
        rw [spansFrom_cons, hc]
        rfl
      simp only [Option.map_some, Option.toList_some, List.map_cons, List.map_nil,
        Nat.add_sub_cancel_left, take_intercalate, splitOn_of_not_mem hs, hfirst,
        List.singleton_append, List.inits_cons, List.tail_cons]
      rw [inits_eq_cons, List.map_cons]
      rfl

end Pieces

variable {p q dir name : Path}

theorem ext (h : p.text = q.text) : p = q := by
  cases p
  cases q
  cases h
  rfl

theorem exists_text_of_isAbsolute (h : p.isAbsolute = true) : ∃ cs, p.text = '/' :: cs := by
  cases htext : p.text with
  | nil => simp [isAbsolute, htext] at h
  | cons c cs =>
    have hc : c = '/' := by simpa [isAbsolute, htext] using h
    exact ⟨cs, by rw [hc]⟩

theorem spans_of_relative (h : p.isAbsolute = false) : p.spans = spansFrom 0 true p.pieces := by
  rw [spans]
  split
  · rename_i cs htext
    simp [isAbsolute, htext] at h
  · rfl

theorem components_of_relative (h : p.isAbsolute = false) :
    p.components = ofPieces true p.pieces := by
  rw [components, spans_of_relative h, map_component_spansFrom]

/-- Without a root, components differ from steps only by a leading `.`. -/
theorem components_eq_or_cons (h : p.isAbsolute = false) :
    p.components = p.steps ∨ p.components = .current :: p.steps := by
  rw [components_of_relative h, steps]
  cases p.pieces with
  | nil => exact .inl rfl
  | cons s ss =>
    rcases piece_cases s with rfl | rfl | rfl | hs
    · exact .inl rfl
    · exact .inr rfl
    · exact .inl rfl
    · left
      rw [ofPieces, ofPieces, Component.ofPiece?_of_isProper true hs,
        Component.ofPiece?_of_isProper false hs]

theorem spans_cons (cs : Text) :
    spans ⟨'/' :: cs⟩ = ⟨.root, 0, 1⟩ :: spansFrom 1 false (Text.splitOn '/' cs) := rfl

theorem components_cons (cs : Text) :
    components ⟨'/' :: cs⟩ = .root :: ofPieces false (Text.splitOn '/' cs) := by
  rw [components, spans_cons, List.map_cons, map_component_spansFrom]

theorem components_of_isAbsolute (h : p.isAbsolute = true) : p.components = .root :: p.steps := by
  obtain ⟨cs, htext⟩ := exists_text_of_isAbsolute h
  obtain ⟨text⟩ := p
  cases htext
  rw [components_cons]
  rfl

theorem root_not_mem_ofPieces (leading : Bool) (ss : List Text) :
    Component.root ∉ ofPieces leading ss := by
  induction ss generalizing leading with
  | nil => exact List.not_mem_nil
  | cons s ss ih =>
    rw [ofPieces, List.mem_append, not_or]
    refine ⟨?_, ih false⟩
    rcases piece_cases s with rfl | rfl | rfl | hs
    · simp
    · cases leading <;> simp
    · simp
    · simp [Component.ofPiece?_of_isProper leading hs]

theorem root_not_mem_components (h : p.isAbsolute = false) : Component.root ∉ p.components := by
  rw [components_of_relative h]
  exact root_not_mem_ofPieces true p.pieces

theorem isAbsolute_of_components {cs : List Component} (h : p.components = .root :: cs) :
    p.isAbsolute = true ∧ p.steps = cs := by
  cases habs : p.isAbsolute with
  | true =>
    rw [components_of_isAbsolute habs] at h
    exact ⟨rfl, (List.cons.inj h).2⟩
  | false => exact absurd (h ▸ List.mem_cons_self) (root_not_mem_components habs)

theorem steps_subset_components (p : Path) : p.steps ⊆ p.components := by
  cases habs : p.isAbsolute with
  | true =>
    rw [components_of_isAbsolute habs]
    exact List.subset_cons_self _ _
  | false =>
    rcases components_eq_or_cons habs with hcs | hcs
    · rw [hcs]
      exact List.Subset.refl _
    · rw [hcs]
      exact List.subset_cons_self _ _

/-- Cutting a path after one of its components leaves the components up to that one, where they
stood before. -/
theorem map_spans_take (p : Path) :
    p.spans.map (fun sp => spans ⟨p.text.take sp.stop⟩) = p.spans.inits.tail := by
  have hpieces : ∀ t : Text, ∀ s ∈ Text.splitOn '/' t, '/' ∉ s :=
    fun t s hs => Text.not_mem_of_mem_splitOn hs
  have hjoin : ∀ t : Text, ['/'].intercalate (Text.splitOn '/' t) = t := by
    intro t
    rw [Text.splitOn_eq, List.intercalate_splitOn]
  cases habs : p.isAbsolute with
  | false =>
    have hcut := map_take_spansFrom 0 true (hpieces p.text)
    rw [hjoin] at hcut
    rw [spans_of_relative habs, pieces, ← hcut]
    apply List.map_congr_left
    intro sp _
    have hrel : (⟨p.text.take sp.stop⟩ : Path).isAbsolute = false := by
      have hhead : p.text.head? ≠ some '/' := by simpa [isAbsolute] using habs
      simp [isAbsolute, List.head?_take, hhead]
    rw [spans_of_relative hrel]
    rfl
  | true =>
    obtain ⟨cs, htext⟩ := exists_text_of_isAbsolute habs
    obtain ⟨text⟩ := p
    cases htext
    have hcut := map_take_spansFrom 1 false (hpieces cs)
    rw [hjoin] at hcut
    have hstop : ∀ sp ∈ spansFrom 1 false (Text.splitOn '/' cs),
        spans ⟨('/' :: cs).take sp.stop⟩ =
          ⟨.root, 0, 1⟩ :: spansFrom 1 false (Text.splitOn '/' (cs.take (sp.stop - 1))) := by
      intro sp hsp
      have hle := le_stop_of_mem_spansFrom hsp
      obtain ⟨n, hn⟩ : ∃ n, sp.stop = n + 1 := ⟨sp.stop - 1, by omega⟩
      rw [hn, List.take_succ_cons, spans_cons, Nat.add_sub_cancel]
    have hmap := congrArg (List.map ((⟨.root, 0, 1⟩ : Span) :: ·)) hcut
    rw [List.map_map] at hmap
    rw [spans_cons, List.map_cons, List.map_congr_left hstop]
    refine Eq.trans (congrArg _ hmap) ?_
    rw [List.inits_cons, List.tail_cons, inits_eq_cons, List.map_cons]
    rfl

theorem map_components_take_spans (p : Path) :
    p.spans.map (fun sp => components ⟨p.text.take sp.stop⟩) = p.components.inits.tail := by
  have hspans := congrArg (List.map (List.map Span.component)) (map_spans_take p)
  rw [List.map_map, List.map_tail, ← List.map_inits] at hspans
  exact hspans

/-- The ancestors of a path go down to its root or, if it is relative, to the empty path. -/
theorem map_components_ancestors (p : Path) :
    p.ancestors.map components =
      (if p.isAbsolute then p.components.inits.tail else p.components.inits).reverse := by
  have hcut := map_components_take_spans p
  rcases List.eq_nil_or_concat p.spans with hspans | ⟨before, last, hspans⟩
  · have hcomponents : p.components = [] := by rw [components, hspans, List.map_nil]
    have hrel : p.isAbsolute = false := by
      by_contra habs
      rw [components_of_isAbsolute (by simpa using habs)] at hcomponents
      cases hcomponents
    simp [ancestors, hspans, hcomponents, hrel]
  · rw [hspans, List.concat_eq_append, List.map_append, List.map_singleton] at hcut
    -- The path itself is not cut, but a cut behind its last span would not show either.
    have hlast : components ⟨p.text.take last.stop⟩ = p.components := by
      have hinits := getLast?_inits p.components
      rw [inits_eq_cons, ← hcut, ← List.cons_append, List.getLast?_concat] at hinits
      exact Option.some.inj hinits
    have hparents : p.ancestors.map components =
        p.components.inits.tail.reverse ++ if p.isAbsolute then [] else [[]] := by
      rw [← hcut, hlast, ancestors, hspans]
      cases p.isAbsolute <;> simp [components, spans, spansFrom, Text.splitOn]
    rw [hparents]
    cases p.isAbsolute with
    | true => simp
    | false =>
      rw [if_neg Bool.false_ne_true, if_neg Bool.false_ne_true, inits_eq_cons p.components,
        List.reverse_cons, List.tail_cons]

section Ancestors
variable (h : q ∈ p.ancestors)
include h

theorem text_prefix_of_mem_ancestors : q.text <+: p.text := by
  rw [ancestors] at h
  rcases List.mem_cons.1 h with rfl | h
  · exact List.prefix_refl _
  · obtain ⟨n, _, rfl⟩ := List.mem_map.1 h
    exact List.take_prefix n p.text

theorem components_prefix_of_mem_ancestors : q.components <+: p.components := by
  have hmem := List.mem_map_of_mem (f := components) h
  rw [map_components_ancestors, List.mem_reverse] at hmem
  rw [← List.mem_inits]
  split at hmem
  · exact List.mem_of_mem_tail hmem
  · exact hmem

end Ancestors

theorem join_of_isAbsolute (h : name.isAbsolute = true) : dir.join name = name := by
  rw [join, if_pos h]

theorem join_of_text_nil (h : dir.text = []) : dir.join name = name := by
  rw [join]
  split
  · rfl
  · simp [h]

theorem text_join (hname : name.isAbsolute = false) (hdir : dir.text ≠ []) :
    (dir.join name).text = Text.dropEnd '/' dir.text ++ '/' :: name.text := by
  rw [join, if_neg (by simp [hname]), Text.dropEnd]
  by_cases hlast : dir.text.getLast? = some '/'
  · obtain ⟨d, hd⟩ := List.getLast?_eq_some_iff.1 hlast
    rw [if_pos (by simp [hlast]), if_pos hlast, hd, List.dropLast_concat, List.append_assoc]
    rfl
  · rw [if_neg (by simp [hdir, hlast]), if_neg hlast]

theorem isAbsolute_join (hname : name.isAbsolute = false) (hdir : dir.text ≠ []) :
    (dir.join name).isAbsolute = dir.isAbsolute := by
  have hhead : (Text.dropEnd '/' dir.text ++ '/' :: name.text).head? = dir.text.head? := by
    rcases Text.eq_dropEnd_or_concat '/' dir.text with hd | hd
    · rw [← hd, List.head?_append_of_ne_nil _ hdir]
    · refine Eq.trans ?_ (congrArg List.head? hd).symm
      cases Text.dropEnd '/' dir.text <;> rfl
  rw [isAbsolute, isAbsolute, text_join hname hdir, hhead]

/-- The pieces of a joined path are those of the name after pieces that come to the same as those
of the directory. -/
theorem exists_pieces_join (hname : name.isAbsolute = false) (hdir : dir.text ≠ []) :
    ∃ ss, ss ≠ [] ∧ (dir.join name).pieces = ss ++ name.pieces ∧
      ∀ leading, ofPieces leading ss = ofPieces leading dir.pieces := by
  have hne := Text.splitOn_ne_nil '/' (Text.dropEnd '/' dir.text)
  refine ⟨Text.splitOn '/' (Text.dropEnd '/' dir.text), hne, ?_, ?_⟩
  · rw [pieces, text_join hname hdir, Text.splitOn_append_cons]
    rfl
  · intro leading
    rcases Text.eq_dropEnd_or_concat '/' dir.text with hd | hd
    · rw [← hd]
      rfl
    · have hslash : dir.pieces = Text.splitOn '/' (Text.dropEnd '/' dir.text) ++ [[]] := by
        rw [pieces, hd, Text.splitOn_append_cons, Text.dropEnd_concat]
        rfl
      rw [hslash, ofPieces_append leading hne]
      simp [ofPieces]

theorem steps_join (hname : name.isAbsolute = false) (hdir : dir.text ≠ []) :
    (dir.join name).steps = dir.steps ++ name.steps := by
  obtain ⟨ss, hne, hjoin, hss⟩ := exists_pieces_join hname hdir
  rw [steps, hjoin, ofPieces_append false hne, hss]
  rfl

theorem components_join (hname : name.isAbsolute = false) (hdir : dir.text ≠ []) :
    (dir.join name).components = dir.components ++ name.steps := by
  cases habs : dir.isAbsolute with
  | true =>
    rw [components_of_isAbsolute habs, components_of_isAbsolute (isAbsolute_join hname hdir ▸ habs),
      steps_join hname hdir]
    rfl
  | false =>
    obtain ⟨ss, hne, hjoin, hss⟩ := exists_pieces_join hname hdir
    rw [components_of_relative habs, components_of_relative (isAbsolute_join hname hdir ▸ habs),
      hjoin, ofPieces_append true hne, hss]
    rfl

theorem join_assoc (a b c : Path) : (a.join b).join c = a.join (b.join c) := by
  by_cases hc : c.isAbsolute
  · rw [join_of_isAbsolute hc, join_of_isAbsolute hc, join_of_isAbsolute hc]
  by_cases ha : a.text = []
  · rw [join_of_text_nil ha, join_of_text_nil ha]
  rw [Bool.not_eq_true] at hc
  by_cases hb : b.isAbsolute
  · obtain ⟨cs, htext⟩ := exists_text_of_isAbsolute hb
    have habs : (b.join c).isAbsolute = true := by
      rw [isAbsolute_join hc (by simp [htext]), hb]
    rw [join_of_isAbsolute hb, join_of_isAbsolute habs]
  rw [Bool.not_eq_true] at hb
  have hab : (a.join b).text ≠ [] := by simp [text_join hb ha]
  apply Path.ext
  by_cases hnil : b.text = []
  · rw [join_of_text_nil hnil, text_join hc hab, text_join hc ha, text_join hb ha, hnil,
      Text.dropEnd_concat]
  · have hbc : (b.join c).isAbsolute = false := by rw [isAbsolute_join hc hnil, hb]
    rw [text_join hc hab, text_join hb ha, text_join hbc ha, text_join hc hnil,
      Text.dropEnd_append_cons hnil, List.append_assoc, List.cons_append]

section OneName
variable {n : Text} (hn : '/' ∉ n)
include hn

theorem isAbsolute_of_not_mem : (⟨n⟩ : Path).isAbsolute = false := by
  cases n with
  | nil => rfl
  | cons c n =>
    have hc : c ≠ '/' := by
      rintro rfl
      exact hn List.mem_cons_self
    simp [isAbsolute, hc]

theorem isAbsolute_join_name (dir : Path) : (dir.join ⟨n⟩).isAbsolute = dir.isAbsolute := by
  by_cases hdir : dir.text = []
  · rw [join_of_text_nil hdir, isAbsolute_of_not_mem hn, isAbsolute, hdir]
    rfl
  · exact isAbsolute_join (isAbsolute_of_not_mem hn) hdir

theorem exists_pieces_join_name (dir : Path) :
    ∃ ss, (dir.join ⟨n⟩).pieces = ss ++ [n] ∧ ofPieces false ss = dir.steps := by
  have hpieces : (⟨n⟩ : Path).pieces = [n] := splitOn_of_not_mem hn
  by_cases hdir : dir.text = []
  · refine ⟨[], by rw [join_of_text_nil hdir, hpieces, List.nil_append], ?_⟩
    rw [steps, pieces, hdir]
    rfl
  · obtain ⟨ss, _, hjoin, hss⟩ := exists_pieces_join (isAbsolute_of_not_mem hn) hdir
    exact ⟨ss, by rw [hjoin, hpieces], hss false⟩

end OneName

end Path

end Literate
