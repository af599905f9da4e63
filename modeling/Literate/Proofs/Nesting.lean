import Literate.Document
import Literate.Proofs.Lines
import Literate.Proofs.Segmentation
import Literate.Proofs.Trimming

/-!
# Nested documents

A document is nested by putting white space in front of each of its lines, as inside a list item.
Opening lines, closing lines and the ranges between them stay where they are, and the indentation
of every fence grows by the white space. The content stays the same exactly if the lines inside a
fence start with the indentation of the fence; a line that does not is kept with the white space in
front of it.
-/

namespace Literate

namespace Text
variable {w t row : Text}

/-- The text with `w` in front of each of its lines. -/
def indent (w t : Text) : Text :=
  (rows t).flatMap (w ++ ·)

theorem indent_append_cons {l : Text} (hl : '\n' ∉ l) (w rest : Text) :
    indent w (l ++ '\n' :: rest) = w ++ l ++ '\n' :: indent w rest := by
  rw [indent, rows_append_cons hl, List.flatMap_cons, indent]
  simp

theorem rows_indent (hw : '\n' ∉ w) (t : Text) : rows (indent w t) = (rows t).map (w ++ ·) := by
  induction hn : t.length using Nat.strong_induction_on generalizing t with
  | h n ih =>
    by_cases hfeed : '\n' ∈ t
    · obtain ⟨l, rest, rfl, hl⟩ := List.eq_append_cons_of_mem hfeed
      have hwl : '\n' ∉ w ++ l := by simp [hw, hl]
      have hrest : rest.length < n := by
        rw [← hn, List.length_append, List.length_cons]
        omega
      rw [indent_append_cons hl, rows_append_cons hwl, rows_append_cons hl, ih _ hrest rest rfl,
        List.map_cons, List.append_assoc]
    · by_cases hnil : t = []
      · rw [hnil]
        rfl
      · have hwt : '\n' ∉ w ++ t := by simp [hw, hfeed]
        rw [indent, rows_of_not_mem hfeed hnil, List.flatMap_singleton,
          rows_of_not_mem hwt (by simp [hnil]), List.map_singleton]

theorem chomp_append (hw : '\r' ∉ w) (hrow : row ≠ []) : chomp (w ++ row) = w ++ chomp row := by
  obtain ⟨l, c, rfl⟩ := (List.eq_nil_or_concat row).resolve_left hrow
  rw [List.concat_eq_append, ← List.append_assoc, chomp, chomp, List.getLast?_concat,
    List.getLast?_concat, List.dropLast_concat, List.dropLast_concat]
  split
  · -- in front of the line feed of an empty line stands the end of `w`
    by_cases hl : l = []
    · have hlast : w.getLast? ≠ some '\r' := fun h => hw (List.mem_of_getLast? h)
      rw [hl, List.append_nil, dropEnd, if_neg hlast]
      simp [dropEnd]
    · rw [dropEnd, dropEnd, List.getLast?_append_of_ne_nil _ hl,
        List.dropLast_append_of_ne_nil hl]
      split <;> rfl
  · exact List.append_assoc _ _ _

theorem ne_nil_of_mem_rows (h : row ∈ rows t) : row ≠ [] := by
  induction t generalizing row with
  | nil => cases h
  | cons c cs ih =>
    rw [rows] at h
    split at h
    · rcases List.mem_cons.1 h with rfl | hrest
      · exact List.cons_ne_nil _ _
      · exact ih hrest
    · split at h
      · rw [List.mem_singleton.1 h]
        exact List.cons_ne_nil _ _
      · rename_i r rs hrows
        rcases List.mem_cons.1 h with rfl | hrest
        · exact List.cons_ne_nil _ _
        · apply ih
          rw [hrows]
          exact List.mem_cons_of_mem r hrest

theorem lines_indent (hfeed : '\n' ∉ w) (hreturn : '\r' ∉ w) (t : Text) :
    lines (indent w t) = (lines t).map (w ++ ·) := by
  rw [lines, rows_indent hfeed, lines, List.map_map, List.map_map]
  apply List.map_congr_left
  intro row hrow
  exact chomp_append hreturn (ne_nil_of_mem_rows hrow)

section Lengths
variable {f g : Text → Text} {ls : List Text}

theorem length_unlines_map_cons (f : Text → Text) (l : Text) (h : ls ≠ []) :
    (unlines ((l :: ls).map f)).length = (f l).length + 1 + (unlines (ls.map f)).length := by
  have hmap : ls.map f ≠ [] := by simp [h]
  rw [List.map_cons, unlines_cons hmap, List.length_append, List.length_cons]
  omega

theorem length_unlines_le (hle : ∀ l, (f l).length ≤ (g l).length) :
    (unlines (ls.map f)).length ≤ (unlines (ls.map g)).length := by
  induction ls with
  | nil => exact le_rfl
  | cons l ls ih =>
    have hl := hle l
    by_cases hnil : ls = []
    · rw [hnil, List.map_singleton, List.map_singleton, unlines_singleton, unlines_singleton]
      exact hl
    · rw [length_unlines_map_cons f l hnil, length_unlines_map_cons g l hnil]
      omega

/-- Longer lines make a longer text. -/
theorem length_eq_of_unlines_eq (hle : ∀ l, (f l).length ≤ (g l).length)
    (h : unlines (ls.map f) = unlines (ls.map g)) : ∀ l ∈ ls, (f l).length = (g l).length := by
  have hlength := congrArg List.length h
  clear h
  induction ls with
  | nil => exact List.forall_mem_nil _
  | cons l ls ih =>
    by_cases hnil : ls = []
    · rw [hnil] at hlength ⊢
      rw [List.map_singleton, List.map_singleton, unlines_singleton, unlines_singleton] at hlength
      exact List.forall_mem_singleton.2 hlength
    · rw [length_unlines_map_cons f l hnil, length_unlines_map_cons g l hnil] at hlength
      -- neither the line nor the rest can be shorter, so neither is longer
      have hl := hle l
      have hls : (unlines (ls.map f)).length ≤ (unlines (ls.map g)).length :=
        length_unlines_le hle
      exact List.forall_mem_cons.2 ⟨by omega, ih (by omega)⟩

end Lengths

end Text

namespace Opening
variable {w l : Text}

/-- The opening after `w` has been put in front of its line. -/
def nest (w : Text) (o : Opening) : Opening :=
  { o with indent := w ++ o.indent }

theorem ofLine?_append (hw : ∀ c ∈ w, isWhite c = true) (l : Text) :
    ofLine? (w ++ l) = (ofLine? l).map (nest w) := by
  unfold ofLine?
  rw [List.dropWhile_append_of_pos hw, List.takeWhile_append_of_pos hw]
  split
  · rfl
  · dsimp only
    split <;> rfl

theorem Opens.nest {o : Opening} (hw : ∀ c ∈ w, isWhite c = true) (h : o.Opens l) :
    (o.nest w).Opens (w ++ l) := by
  apply opens_of_ofLine?
  rw [ofLine?_append hw, ofLine?_of_opens h, Option.map_some]

/-- White space makes no opening line out of another line. -/
theorem not_opens_append (hw : ∀ c ∈ w, isWhite c = true) (h : ∀ o, ¬ Opens o l) (o : Opening) :
    ¬ o.Opens (w ++ l) := by
  intro hopens
  have hline := ofLine?_of_opens hopens
  rw [ofLine?_append hw] at hline
  obtain ⟨o', ho', _⟩ := Option.map_eq_some_iff.1 hline
  exact h o' (opens_of_ofLine? ho')

theorem closes_nest_iff (hw : ∀ c ∈ w, isWhite c = true) (o : Opening) (l : Text) :
    (o.nest w).Closes (w ++ l) ↔ o.Closes l := by
  unfold Closes
  rw [Text.trim_white_append hw]
  rfl

/-- A line without the indentation keeps the white space in front of it. -/
theorem unindent_append (w indent l : Text) :
    unindent (w ++ indent) (w ++ l) =
      if indent <+: l then unindent indent l else w ++ unindent indent l := by
  have hstarts : w ++ indent <+: w ++ l ↔ indent <+: l := List.prefix_append_right_inj w
  unfold unindent
  by_cases h : indent <+: l
  · rw [if_pos (hstarts.2 h), if_pos h, if_pos h, List.length_append, ← List.drop_drop,
      List.drop_left]
  · rw [if_neg (mt hstarts.1 h), if_neg h, if_neg h]

theorem length_unindent_le (w indent l : Text) :
    (unindent indent l).length ≤ (unindent (w ++ indent) (w ++ l)).length := by
  rw [unindent_append]
  split
  · exact le_rfl
  · rw [List.length_append]
    omega

/-- The content tells whether one of its lines has kept the white space. -/
theorem unlines_unindent_eq_iff (w indent : Text) (ls : List Text) :
    Text.unlines ((ls.map (w ++ ·)).map (unindent (w ++ indent))) =
      Text.unlines (ls.map (unindent indent)) ↔ w = [] ∨ ∀ l ∈ ls, indent <+: l := by
  rw [List.map_map]
  constructor
  · intro h
    have hlength := Text.length_eq_of_unlines_eq (length_unindent_le w indent) h.symm
    by_cases hw : w = []
    · exact .inl hw
    · refine .inr fun l hl => ?_
      by_contra hstarts
      have hkept := hlength l hl
      have hpos := List.length_pos_iff.2 hw
      rw [unindent_append, if_neg hstarts, List.length_append] at hkept
      omega
  · intro h
    congr 1
    apply List.map_congr_left
    intro l hl
    rw [Function.comp_apply, unindent_append]
    rcases h with rfl | hall
    · rw [List.nil_append, ite_self]
    · rw [if_pos (hall l hl)]

end Opening

namespace Fence
variable {w : Text} {ls : List Text} {r : Range} {rs : List Range}

/-- The fence after `w` has been put in front of its lines. -/
def nest (w : Text) (f : Fence) : Fence :=
  { f with indent := w ++ f.indent }

namespace Range

def nest (w : Text) (r : Range) : Range :=
  { r with opening := r.opening.nest w }

/-- Every line inside the fence starts with the indentation of the fence. -/
def Aligned (ls : List Text) (r : Range) : Prop :=
  ∀ l ∈ r.inside ls, r.opening.indent <+: l

theorem inside_nest (w : Text) (ls : List Text) (r : Range) :
    (r.nest w).inside (ls.map (w ++ ·)) = (r.inside ls).map (w ++ ·) := by
  rw [inside, inside, List.length_map, ← List.map_take, ← List.map_drop]
  rfl

theorem IsFence.nest (hw : ∀ c ∈ w, isWhite c = true) (h : r.IsFence ls) :
    (r.nest w).IsFence (ls.map (w ++ ·)) where
  opens := by
    obtain ⟨l, hl, hopens⟩ := h.opens
    refine ⟨w ++ l, ?_, hopens.nest hw⟩
    rw [List.getElem?_map]
    exact congrArg _ hl
  closes := by
    intro n hn
    obtain ⟨hlt, l, hl, hcloses⟩ := h.closes n hn
    refine ⟨hlt, w ++ l, ?_, (Opening.closes_nest_iff hw _ l).2 hcloses⟩
    rw [List.getElem?_map, hl, Option.map_some]
  inside_open := by
    rw [inside_nest]
    intro l hl
    obtain ⟨k, hk, rfl⟩ := List.mem_map.1 hl
    exact fun hcloses => h.inside_open k hk ((Opening.closes_nest_iff hw _ k).1 hcloses)

end Range

theorem Range.fence_nest_iff (w : Text) (ls : List Text) (r : Range) :
    (r.nest w).fence (ls.map (w ++ ·)) = (r.fence ls).nest w ↔ w = [] ∨ r.Aligned ls := by
  unfold Aligned
  rw [← Opening.unlines_unindent_eq_iff, fence, inside_nest, fence, Fence.nest, Fence.mk.injEq]
  constructor
  · intro h
    exact h.2.2.1
  · intro h
    exact ⟨rfl, rfl, h, rfl, rfl⟩

theorem IsSegmentation.nest {start : Nat} (hw : ∀ c ∈ w, isWhite c = true)
    (h : IsSegmentation ls start rs) :
    IsSegmentation (ls.map (w ++ ·)) start (rs.map (Range.nest w)) where
  fences := by
    intro r hr
    obtain ⟨s, hs, rfl⟩ := List.mem_map.1 hr
    exact (h.fences s hs).nest hw
  start_le := by
    intro r hr
    obtain ⟨s, hs, rfl⟩ := List.mem_map.1 hr
    exact h.start_le s hs
  ordered := List.pairwise_map.2 h.ordered
  outside := by
    intro k l hk hl hcover
    rw [List.getElem?_map] at hl
    obtain ⟨l', hl', rfl⟩ := Option.map_eq_some_iff.1 hl
    apply Opening.not_opens_append hw
    apply h.outside k l' hk hl'
    intro s hs
    exact hcover (s.nest w) (List.mem_map_of_mem hs)

theorem IsSegmentation.read_eq {t : Text} (h : IsSegmentation (Text.lines t) 0 rs) :
    read t = rs.map (Range.fence (Text.lines t)) := by
  obtain ⟨rs', hrs', hread⟩ := exists_segmentation (Text.lines t) 0
  rw [h.unique hrs', ← hread]
  rfl

/-- Every line inside a fence of the document starts with the indentation of the fence. -/
def IsAligned (t : Text) : Prop :=
  ∃ rs, IsSegmentation (Text.lines t) 0 rs ∧ ∀ r ∈ rs, r.Aligned (Text.lines t)

theorem isAligned_iff {t : Text} (h : IsSegmentation (Text.lines t) 0 rs) :
    IsAligned t ↔ ∀ r ∈ rs, r.Aligned (Text.lines t) := by
  constructor
  · intro haligned
    obtain ⟨rs', hrs', hall⟩ := haligned
    rwa [h.unique hrs']
  · intro hall
    exact ⟨rs, h, hall⟩

/-- The blocks of a document take nothing from the indentation of its fences. -/
theorem read_document_of_nest {t u : Text} (h : read u = (read t).map (nest w))
    (settings : Settings) (path : Option Path) :
    Document.read settings path u = Document.read settings path t := by
  rw [Document.read, h, List.filterMap_map]
  rfl

/-- White space in front of every line of a document moves the indentation of every fence and
changes nothing else, exactly if the lines inside each fence start with the indentation of the
fence. Then the blocks of the document stay the same as well. -/
theorem read_indent_iff {t : Text} (hw : ∀ c ∈ w, isWhite c = true ∧ c ≠ '\r' ∧ c ≠ '\n') :
    (read (Text.indent w t) = (read t).map (nest w) ↔ w = [] ∨ IsAligned t) ∧
      (IsAligned t → ∀ settings path,
        Document.read settings path (Text.indent w t) = Document.read settings path t) := by
  have hwhite : ∀ c ∈ w, isWhite c = true := fun c hc => (hw c hc).1
  have hreturn : '\r' ∉ w := fun hmem => (hw '\r' hmem).2.1 rfl
  have hfeed : '\n' ∉ w := fun hmem => (hw '\n' hmem).2.2 rfl
  have hlines := Text.lines_indent hfeed hreturn t
  obtain ⟨rs, hrs, _⟩ := exists_segmentation (Text.lines t) 0
  have hnested : IsSegmentation (Text.lines (Text.indent w t)) 0 (rs.map (Range.nest w)) := by
    rw [hlines]
    exact hrs.nest hwhite
  have hiff : read (Text.indent w t) = (read t).map (nest w) ↔ w = [] ∨ IsAligned t := by
    rw [hnested.read_eq, hrs.read_eq, hlines, List.map_map, List.map_map, List.map_inj_left,
      isAligned_iff hrs]
    simp only [Function.comp_apply, Range.fence_nest_iff]
    by_cases hnil : w = []
    · simp [hnil]
    · simp [hnil]
  refine ⟨hiff, fun haligned => ?_⟩
  exact read_document_of_nest (hiff.2 (.inr haligned))

/-- The second fence has no indentation and is never closed, so that its empty line is no exception.
The white space holds a no-break space. -/
theorem read_indent_list_item :
    let w : Text := [' ', '\u00a0']
    let t : Text := "  ```js\n    a\r\n   ```\n~~~\n\nb".toList
    IsAligned t ∧ read (Text.indent w t) = (read t).map (nest w) ∧
      (read (Text.indent w t)).map indent = [w ++ "  ".toList, w] := by
  intro w t
  have hw : ∀ c ∈ w, isWhite c = true ∧ c ≠ '\r' ∧ c ≠ '\n' :=
    List.forall_mem_cons.2 ⟨by decide, List.forall_mem_singleton.2 (by decide)⟩
  have hlines : Text.lines t = ["  ```js".toList, "    a".toList, "   ```".toList, "~~~".toList,
      [], ['b']] := by
    decide +kernel
  let first : Range := ⟨0, ⟨"  ".toList, '`', 3, "js".toList⟩, some 2⟩
  let second : Range := ⟨3, ⟨[], '~', 3, []⟩, none⟩
  have hfirst : first.IsFence (Text.lines t) := by
    rw [hlines]
    refine ⟨⟨_, rfl, Opening.opens_of_ofLine? (by decide +kernel)⟩, ?_, by decide +kernel⟩
    intro n hn
    cases hn
    exact ⟨by decide, _, rfl, by decide +kernel⟩
  have hsecond : second.IsFence (Text.lines t) := by
    rw [hlines]
    refine ⟨⟨_, rfl, Opening.opens_of_ofLine? (by decide +kernel)⟩, ?_, by decide +kernel⟩
    intro n hn
    cases hn
  have hrs : IsSegmentation (Text.lines t) 0 [first, second] :=
    .cons hfirst rfl (.single hsecond rfl)
  have haligned : IsAligned t := by
    refine ⟨_, hrs, ?_⟩
    unfold Range.Aligned
    rw [hlines]
    decide +kernel
  exact ⟨haligned, (read_indent_iff hw).1.2 (.inr haligned), by decide +kernel⟩

end Fence

end Literate
