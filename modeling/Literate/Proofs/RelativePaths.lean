import Literate.Proofs.Walking

/-!
# Paths as seen from a directory

What is left of a path behind the components of a directory has exactly the remaining components, so
that it leads from the directory to where the path leads. A name that has been joined to the
directory comes back as it was spelled, if its first and its last piece show as components.
-/

namespace Literate

namespace Path
variable {p q base name : Path} {s : Text} {ss : List Text} {first : Span} {rest : List Span}

theorem intercalate_splitOn (t : Text) : ['/'].intercalate (Text.splitOn '/' t) = t := by
  rw [Text.splitOn_eq, List.intercalate_splitOn]

theorem splitOn_intercalate (hss : ss ≠ []) (h : ∀ s ∈ ss, '/' ∉ s) :
    Text.splitOn '/' (['/'].intercalate ss) = ss := by
  rw [Text.splitOn_eq, List.splitOn_intercalate '/' h hss]

theorem drop_intercalate (hss : ss ≠ []) (n : Nat) :
    (['/'].intercalate (s :: ss)).drop (s.length + 1 + n) = (['/'].intercalate ss).drop n := by
  have hcut : s.length + 1 = (s ++ ['/']).length := by simp
  rw [List.intercalate_cons_of_ne_nil hss, hcut, ← List.drop_drop, List.drop_left]

theorem le_start_of_mem_spansFrom {pos : Nat} {leading : Bool} {sp : Span}
    (h : sp ∈ spansFrom pos leading ss) : pos ≤ sp.start := by
  induction ss generalizing pos leading with
  | nil => cases h
  | cons s ss ih =>
    rw [spansFrom_cons] at h
    rcases List.mem_append.1 h with h | h
    · obtain ⟨c, _, rfl⟩ : ∃ c, Component.ofPiece? leading s = some c ∧
          ⟨c, pos, pos + s.length⟩ = sp := by simpa using h
      exact Nat.le_refl _
    · have := ih h
      omega

/-- Cutting a path in front of one of its spans leaves the spans from that one on. -/
theorem spansFrom_drop {pos k : Nat} (hss : ∀ s ∈ ss, '/' ∉ s)
    (h : (spansFrom pos false ss).drop k = first :: rest) :
    spansFrom first.start false
        (Text.splitOn '/' ((['/'].intercalate ss).drop (first.start - pos))) = first :: rest := by
  induction ss generalizing pos k with
  | nil => simp [spansFrom] at h
  | cons s ss ih =>
    -- Either the span is that of the first piece, or it is one of the pieces behind it.
    by_cases hfirst : k = 0 ∧ (Component.ofPiece? false s).isSome
    · obtain ⟨rfl, hsome⟩ := hfirst
      obtain ⟨c, hc⟩ := Option.isSome_iff_exists.1 hsome
      have hspans : spansFrom pos false (s :: ss) = first :: rest := h
      have hstart : first.start = pos := by
        rw [spansFrom_cons, hc] at h
        rw [← (List.cons.inj h).1]
      rw [hstart, Nat.sub_self, List.drop_zero, splitOn_intercalate (by simp) hss, hspans]
    · obtain ⟨j, hj⟩ : ∃ j,
          (spansFrom (pos + s.length + 1) false ss).drop j = first :: rest := by
        rw [spansFrom_cons] at h
        cases hc : Component.ofPiece? false s with
        | none =>
          rw [hc] at h
          exact ⟨k, h⟩
        | some c =>
          rw [hc] at h
          cases k with
          | zero => exact absurd ⟨rfl, by rw [hc]; rfl⟩ hfirst
          | succ k => exact ⟨k, h⟩
      have hmem : first ∈ spansFrom (pos + s.length + 1) false ss := by
        apply List.mem_of_mem_drop (i := j)
        rw [hj]
        exact List.mem_cons_self
      have hle := le_start_of_mem_spansFrom hmem
      have hne : ss ≠ [] := by
        rintro rfl
        cases hmem
      have hstart : first.start - pos = s.length + 1 + (first.start - (pos + s.length + 1)) := by
        omega
      rw [hstart, drop_intercalate hne]
      exact ih (fun r hr => hss r (List.mem_cons_of_mem s hr)) hj

/-- From the first span on, the text starts with a name. -/
theorem head?_ne_of_spansFrom {t : Text}
    (h : spansFrom first.start false (Text.splitOn '/' t) = first :: rest) :
    t.head? ≠ some '/' := by
  intro hhead
  cases t with
  | nil => cases hhead
  | cons c t =>
    obtain rfl : c = '/' := Option.some.inj hhead
    have hmem : first ∈ spansFrom (first.start + 1) false (Text.splitOn '/' t) := by
      have hsplit : Text.splitOn '/' ('/' :: t) = [] :: Text.splitOn '/' t := by
        simp [Text.splitOn]
      rw [hsplit, spansFrom_cons] at h
      simp only [Component.ofPiece?_nil, Option.map_none, Option.toList_none, List.nil_append,
        List.length_nil, Nat.add_zero] at h
      rw [h]
      exact List.mem_cons_self
    have := le_start_of_mem_spansFrom hmem
    omega

/-- The first span is that of a piece which shows, so it shows at the start of a path as well. -/
theorem spansFrom_leading {t : Text}
    (h : spansFrom first.start false (Text.splitOn '/' t) = first :: rest) :
    spansFrom first.start true (Text.splitOn '/' t) = first :: rest := by
  rw [← h]
  cases hsplit : Text.splitOn '/' t with
  | nil => exact absurd hsplit (Text.splitOn_ne_nil '/' t)
  | cons s ss =>
    rw [hsplit, spansFrom_cons] at h
    rw [spansFrom_cons, spansFrom_cons]
    rcases piece_cases s with rfl | rfl | rfl | hs
    · rfl
    · have hmem : first ∈ spansFrom (first.start + ['.'].length + 1) false ss := by
        have hrest : spansFrom (first.start + ['.'].length + 1) false ss = first :: rest := h
        rw [hrest]
        exact List.mem_cons_self
      have := le_start_of_mem_spansFrom hmem
      omega
    · rfl
    · rw [Component.ofPiece?_of_isProper true hs, Component.ofPiece?_of_isProper false hs]

/-- A cut behind the last span does not show. -/
theorem ofPieces_take_last {t : Text} {leading : Bool} {last : Span}
    (h : spansFrom first.start leading (Text.splitOn '/' t) = first :: rest)
    (hlast : (first :: rest).getLast? = some last) :
    ofPieces leading (Text.splitOn '/' (t.take (last.stop - first.start))) =
      (first :: rest).map Span.component := by
  have hcut := map_take_spansFrom first.start leading
    fun s (hs : s ∈ Text.splitOn '/' t) => Text.not_mem_of_mem_splitOn hs
  rw [intercalate_splitOn, h] at hcut
  have hinits := getLast?_inits (first :: rest)
  rw [inits_eq_cons, ← hcut, List.getLast?_cons_of_ne_nil (by simp), List.getLast?_map,
    hlast] at hinits
  rw [← map_component_spansFrom first.start]
  exact congrArg _ (Option.some.inj hinits)

/-- A path starts with a component, and the other ones follow behind a separator. -/
theorem exists_spans_cons (h : p.text ≠ []) :
    ∃ sp pos, sp.start = 0 ∧
      p.spans = sp :: spansFrom pos false (Text.splitOn '/' (p.text.drop pos)) := by
  cases habs : p.isAbsolute with
  | true =>
    obtain ⟨cs, htext⟩ := exists_text_of_isAbsolute habs
    refine ⟨⟨.root, 0, 1⟩, 1, rfl, ?_⟩
    simp only [spans, htext, List.drop_succ_cons, List.drop_zero]
  | false =>
    have hwhole : ['/'].intercalate p.pieces = p.text := intercalate_splitOn p.text
    have hslash : ∀ s ∈ p.pieces, '/' ∉ s := fun s hs => Text.not_mem_of_mem_splitOn hs
    rw [spans_of_relative habs]
    cases hpieces : p.pieces with
    | nil => exact absurd hpieces (Text.splitOn_ne_nil '/' p.text)
    | cons s ss =>
      rw [hpieces] at hwhole hslash
      obtain ⟨c, hc⟩ : ∃ c, Component.ofPiece? true s = some c := by
        rcases piece_cases s with rfl | rfl | rfl | hs
        · -- an empty first piece is all there is, or stands in front of a root
          exfalso
          by_cases hss : ss = []
          · subst hss
            exact h hwhole.symm
          · rw [List.intercalate_cons_of_ne_nil hss] at hwhole
            simp [isAbsolute, ← hwhole] at habs
        · exact ⟨_, rfl⟩
        · exact ⟨_, rfl⟩
        · exact ⟨_, Component.ofPiece?_of_isProper true hs⟩
      refine ⟨⟨c, 0, 0 + s.length⟩, 0 + s.length + 1, rfl, ?_⟩
      rw [spansFrom_cons, hc]
      by_cases hss : ss = []
      · subst hss
        have htext : p.text.drop (0 + s.length + 1) = [] := by
          rw [← hwhole, List.intercalate_singleton]
          exact List.drop_of_length_le (by omega)
        rw [htext]
        rfl
      · have htext : p.text.drop (0 + s.length + 1) = ['/'].intercalate ss := by
          rw [← hwhole, Nat.zero_add]
          exact drop_intercalate hss 0
        rw [htext, splitOn_intercalate hss fun r hr => hslash r (List.mem_cons_of_mem s hr)]
        rfl

theorem components_eq_nil_iff : p.components = [] ↔ p.text = [] := by
  constructor
  · intro hnil
    by_contra hne
    obtain ⟨sp, pos, _, hspans⟩ := exists_spans_cons hne
    rw [components, hspans] at hnil
    cases hnil
  · intro htext
    rw [components, spans, htext]
    rfl

section Stripping
variable (hinit : base.components <+: p.components)
include hinit

theorem stripBase?_of_drop_nil (hdrop : p.spans.drop base.components.length = []) :
    stripBase? base p = some ⟨[]⟩ := by
  simp only [stripBase?, List.isPrefixOf_iff_prefix.2 hinit, if_true, hdrop, List.head?_nil]

theorem stripBase?_of_drop_cons {last : Span}
    (hdrop : p.spans.drop base.components.length = first :: rest)
    (hlast : (first :: rest).getLast? = some last) :
    stripBase? base p = some ⟨(p.text.drop first.start).take (last.stop - first.start)⟩ := by
  simp only [stripBase?, List.isPrefixOf_iff_prefix.2 hinit, if_true, hdrop, List.head?_cons, hlast]

/-- Behind the components of the directory stand the steps of what is left, which does not start
with a `.` of its own. -/
theorem exists_stripBase? (hbase : base.text ≠ []) :
    ∃ q, stripBase? base p = some q ∧ q.isAbsolute = false ∧ q.components = q.steps ∧
      p.components = base.components ++ q.steps := by
  have hcomponents : p.components = base.components ++
      (p.spans.drop base.components.length).map Span.component := by
    obtain ⟨cs, hcs⟩ := hinit
    rw [List.map_drop, ← components, ← hcs, List.drop_left]
  cases hdrop : p.spans.drop base.components.length with
  | nil =>
    rw [hdrop] at hcomponents
    exact ⟨⟨[]⟩, stripBase?_of_drop_nil hinit hdrop, rfl, rfl, hcomponents⟩
  | cons first rest =>
    rw [hdrop] at hcomponents
    obtain ⟨last, hlast⟩ : ∃ last, (first :: rest).getLast? = some last :=
      ⟨_, List.getLast?_eq_some_getLast (by simp)⟩
    refine ⟨_, stripBase?_of_drop_cons hinit hdrop hlast, ?_⟩
    -- The directory takes up the first component at least, so that the remaining spans lie behind
    -- a separator.
    have hp : p.text ≠ [] := by
      intro htext
      rw [components_eq_nil_iff.2 htext, List.prefix_nil] at hinit
      exact hbase (components_eq_nil_iff.1 hinit)
    obtain ⟨sp, pos, _, hcons⟩ := exists_spans_cons hp
    obtain ⟨k, hk⟩ : ∃ k, base.components.length = k + 1 := by
      apply Nat.exists_eq_succ_of_ne_zero
      rw [Ne, List.length_eq_zero_iff, components_eq_nil_iff]
      exact hbase
    rw [hk, hcons, List.drop_succ_cons] at hdrop
    have hle : pos ≤ first.start := by
      have hmem : first ∈ spansFrom pos false (Text.splitOn '/' (p.text.drop pos)) := by
        apply List.mem_of_mem_drop (i := k)
        rw [hdrop]
        exact List.mem_cons_self
      exact le_start_of_mem_spansFrom hmem
    have hcut := spansFrom_drop (fun s hs => Text.not_mem_of_mem_splitOn hs) hdrop
    rw [intercalate_splitOn, List.drop_drop, Nat.add_sub_cancel' hle] at hcut
    have hrel : (⟨(p.text.drop first.start).take (last.stop - first.start)⟩ : Path).isAbsolute =
        false := by
      have hhead := head?_ne_of_spansFrom hcut
      rw [List.head?_drop] at hhead
      simp [isAbsolute, List.head?_take, hhead]
    have hsteps := ofPieces_take_last hcut hlast
    refine ⟨hrel, ?_, ?_⟩
    · rw [components_of_relative hrel, steps, pieces, hsteps]
      exact ofPieces_take_last (spansFrom_leading hcut) hlast
    · rw [hcomponents, ← hsteps]
      rfl

end Stripping

theorem relativeTo_of_not_isPrefix (h : ¬ base.components <+: p.components) :
    relativeTo base p = p := by
  have hnone : stripBase? base p = none := by
    rw [stripBase?, if_neg]
    rw [List.isPrefixOf_iff_prefix]
    exact h
  rw [relativeTo, hnone, Option.getD_none]

/-- Seen from an empty path, a path keeps its components. -/
theorem components_relativeTo_nil (h : base.text = []) :
    (relativeTo base p).components = p.components := by
  have hnil := components_eq_nil_iff.2 h
  have hinit : base.components <+: p.components := by
    rw [hnil]
    exact List.nil_prefix
  have hdrop : p.spans.drop base.components.length = p.spans := by
    rw [hnil]
    rfl
  by_cases hp : p.text = []
  · have hspans : p.spans = [] := by
      rw [spans, hp]
      rfl
    rw [relativeTo, stripBase?_of_drop_nil hinit (hdrop.trans hspans), components, components, hspans]
    rfl
  · obtain ⟨sp, pos, hstart, hspans⟩ := exists_spans_cons hp
    obtain ⟨last, hlast⟩ : ∃ last, p.spans.getLast? = some last :=
      ⟨_, List.getLast?_eq_some_getLast (by rw [hspans]; simp)⟩
    have hcut := map_components_take_spans p
    have hinits := getLast?_inits p.components
    rw [inits_eq_cons, ← hcut, List.getLast?_cons_of_ne_nil (by rw [hspans]; simp),
      List.getLast?_map, hlast] at hinits
    rw [hspans] at hlast
    rw [relativeTo, stripBase?_of_drop_cons hinit (hdrop.trans hspans) hlast, hstart]
    exact Option.some.inj hinits

theorem text_ne_nil_of_isAbsolute (h : p.isAbsolute = true) : p.text ≠ [] := by
  obtain ⟨cs, htext⟩ := exists_text_of_isAbsolute h
  simp [htext]

theorem isAbsolute_join_left (hbase : base.isAbsolute = true) (name : Path) :
    (base.join name).isAbsolute = true := by
  cases hname : name.isAbsolute with
  | true => rw [join_of_isAbsolute hname, hname]
  | false =>
    rw [isAbsolute_join hname (text_ne_nil_of_isAbsolute hbase), hbase]

/-- A path is the same path again when it is seen from a directory and joined to it. -/
theorem components_join_relativeTo (hbase : base.isAbsolute = true) (hp : p.isAbsolute = true) :
    (base.join (relativeTo base p)).components = p.components := by
  by_cases hinit : base.components <+: p.components
  · have hne := text_ne_nil_of_isAbsolute hbase
    obtain ⟨q, hq, hrel, _, hcomponents⟩ := exists_stripBase? hinit hne
    rw [relativeTo, hq, Option.getD_some, components_join hrel hne, hcomponents]
  · rw [relativeTo_of_not_isPrefix hinit, join_of_isAbsolute hp]

theorem spansFrom_append (pos : Nat) (leading : Bool) (rs : List Text) (hss : ss ≠ []) :
    spansFrom pos leading (ss ++ rs) =
      spansFrom pos leading ss ++
        spansFrom (pos + (['/'].intercalate ss).length + 1) false rs := by
  induction ss generalizing pos leading with
  | nil => exact absurd rfl hss
  | cons s ss ih =>
    rw [List.cons_append, spansFrom_cons, spansFrom_cons, List.append_assoc]
    by_cases hlast : ss = []
    · rw [hlast, List.intercalate_singleton]
      rfl
    · have hlength : (['/'].intercalate (s :: ss)).length =
          s.length + 1 + (['/'].intercalate ss).length := by
        rw [List.intercalate_cons_of_ne_nil hlast, List.length_append, List.length_append]
        rfl
      rw [ih _ _ hlast, hlength]
      congr 3
      omega

theorem getLast?_spansFrom (ss : List Text) {n : Text} {c : Component}
    (hn : Component.ofPiece? false n = some c) (pos : Nat) :
    ∃ start, (spansFrom pos false (ss ++ [n])).getLast? =
      some ⟨c, start, pos + (['/'].intercalate (ss ++ [n])).length⟩ := by
  induction ss generalizing pos with
  | nil =>
    refine ⟨pos, ?_⟩
    rw [List.nil_append, spansFrom_cons, hn, List.intercalate_singleton]
    rfl
  | cons s ss ih =>
    obtain ⟨start, hstart⟩ := ih (pos + s.length + 1)
    refine ⟨start, ?_⟩
    have hne : spansFrom (pos + s.length + 1) false (ss ++ [n]) ≠ [] := by
      intro hnil
      rw [hnil] at hstart
      cases hstart
    rw [List.cons_append, spansFrom_cons, List.getLast?_append_of_ne_nil _ hne, hstart,
      List.intercalate_cons_of_ne_nil (by simp), List.length_append, List.length_append]
    congr 2
    simp only [List.length_singleton]
    omega

/-- The spans of a name that has been joined to a directory stand behind those of the directory. -/
theorem exists_spans_join (hbase : base.isAbsolute = true) (hname : name.isAbsolute = false) :
    ∃ before, (base.join name).spans = before ++
        spansFrom ((Text.dropEnd '/' base.text).length + 1) false name.pieces ∧
      before.length = base.components.length := by
  obtain ⟨cs, htext⟩ := exists_text_of_isAbsolute hbase
  have hne := text_ne_nil_of_isAbsolute hbase
  obtain ⟨before, hspans⟩ : ∃ before, (base.join name).spans = before ++
      spansFrom ((Text.dropEnd '/' base.text).length + 1) false name.pieces := by
    have hjoin := text_join hname hne
    rw [htext] at hjoin ⊢
    by_cases hcs : cs = []
    · subst hcs
      have hspans : (base.join name).spans = spans ⟨'/' :: name.text⟩ := by
        rw [spans, hjoin]
        rfl
      exact ⟨[⟨.root, 0, 1⟩], hspans⟩
    · have hend : Text.dropEnd '/' ('/' :: cs) = '/' :: Text.dropEnd '/' cs :=
        Text.dropEnd_append_cons (s := []) hcs
      rw [hend, List.cons_append] at hjoin
      have hspans : (base.join name).spans =
          spans ⟨'/' :: (Text.dropEnd '/' cs ++ '/' :: name.text)⟩ := by
        rw [spans, hjoin]
        rfl
      rw [hspans, hend, spans_cons, Text.splitOn_append_cons,
        spansFrom_append _ _ _ (Text.splitOn_ne_nil '/' _), intercalate_splitOn, ← List.cons_append,
        List.length_cons, Nat.add_comm 1]
      exact ⟨_, rfl⟩
  refine ⟨before, hspans, ?_⟩
  have hcomponents := components_join hname hne
  rw [components, hspans, List.map_append, map_component_spansFrom] at hcomponents
  rw [← List.append_cancel_right hcomponents, List.length_map]

/-- Inside of a directory the path starts and ends with a component. -/
structure Shows (p : Path) : Prop where
  relative : p.isAbsolute = false
  first : ∀ s ∈ p.pieces.head?, (Component.ofPiece? false s).isSome
  last : ∀ s ∈ p.pieces.getLast?, (Component.ofPiece? false s).isSome

/-- A name that shows comes back as it was spelled. -/
theorem relativeTo_join {root : Path} (hbase : root.components = base.components)
    (hroot : root.isAbsolute = true) (h : name.Shows) :
    relativeTo base (root.join name) = name := by
  obtain ⟨hname, hfirst, hlast⟩ := h
  have hne := text_ne_nil_of_isAbsolute hroot
  obtain ⟨before, hspans, hlength⟩ := exists_spans_join hroot hname
  rw [hbase] at hlength
  have hinit : base.components <+: (root.join name).components := by
    rw [components_join hname hne, hbase]
    exact List.prefix_append _ _
  obtain ⟨k, hk⟩ : ∃ k, k = (Text.dropEnd '/' root.text).length + 1 := ⟨_, rfl⟩
  have hdrop : (root.join name).spans.drop base.components.length =
      spansFrom k false name.pieces := by
    rw [hspans, ← hlength, List.drop_left, hk]
  have hleft : (root.join name).text.drop k = name.text := by
    rw [text_join hname hne, hk, ← List.drop_drop, List.drop_left, List.drop_one, List.tail_cons]
  -- The first span starts where the name starts, and the last one ends where it ends.
  obtain ⟨ss, n, hpieces⟩ := (List.eq_nil_or_concat' name.pieces).resolve_left
    (Text.splitOn_ne_nil '/' name.text)
  have hsome := hlast n (by rw [hpieces, List.getLast?_concat]; rfl)
  obtain ⟨c, hc⟩ := Option.isSome_iff_exists.1 hsome
  obtain ⟨start, hstart⟩ := getLast?_spansFrom ss hc k
  have hwhole : ['/'].intercalate name.pieces = name.text := intercalate_splitOn name.text
  rw [← hpieces, hwhole] at hstart
  obtain ⟨first, rest, hcons, hpos⟩ : ∃ first rest, spansFrom k false name.pieces = first :: rest ∧
      first.start = k := by
    cases hsplit : name.pieces with
    | nil => exact absurd hsplit (Text.splitOn_ne_nil '/' name.text)
    | cons s ss =>
      obtain ⟨c, hc⟩ := Option.isSome_iff_exists.1 (hfirst s (by rw [hsplit]; rfl))
      rw [spansFrom_cons, hc]
      exact ⟨_, _, rfl, rfl⟩
  rw [hcons] at hdrop hstart
  rw [relativeTo, stripBase?_of_drop_cons hinit hdrop hstart, Option.getD_some, hpos, hleft,
    Nat.add_sub_cancel_left, List.take_length]

end Path

end Literate
