import Literate.Proofs.Expansion

/-!
# Joining chunks

`separated` puts a line feed behind each chunk but the last, unless the chunk ends with one itself.
Rendering looks at the text so far instead of the chunk before, and the two differ for an empty
chunk: the text so far ends with a line feed already, except at the start. So an empty chunk between
the first and the last one adds nothing at all, and the chunks of a section are separated exactly
when there is no such chunk.
-/

namespace Literate

/-- What stands between a chunk and the next one: a line feed, unless the chunk ends with one. -/
def separator (e : Text) : Text :=
  if e.getLast? = some '\n' then [] else ['\n']

/-- The chunks in order, each but the last with its separator. -/
def separated : List Text → Text
  | [] => []
  | [e] => e
  | e :: e' :: es => e ++ separator e ++ separated (e' :: es)

/-- Without the empty chunks that are followed by another one. -/
def dropEmpty : List Text → List Text
  | [] => []
  | [e] => [e]
  | e :: e' :: es => if e = [] then dropEmpty (e' :: es) else e :: dropEmpty (e' :: es)

/-- The chunks between the first and the last one. -/
def innerChunks (es : List Text) : List Text :=
  es.tail.dropLast

/-- Without the empty chunks between the first and the last one. -/
def dropInner : List Text → List Text
  | [] => []
  | e :: es => e :: dropEmpty es

theorem separated_cons {es : List Text} (h : es ≠ []) (e : Text) :
    separated (e :: es) = e ++ separator e ++ separated es := by
  obtain ⟨e', es, rfl⟩ := List.exists_cons_of_ne_nil h
  rfl

theorem dropEmpty_ne_nil {es : List Text} (h : es ≠ []) : dropEmpty es ≠ [] := by
  fun_induction dropEmpty es with
  | case1 => exact absurd rfl h
  | case2 e => exact List.cons_ne_nil e []
  | case3 e' es ih => exact ih (List.cons_ne_nil e' es)
  | case4 e e' es he ih => exact List.cons_ne_nil e _

/-- After its separator a text ends with a line feed, even if it is empty. -/
theorem getLast?_append_separator (out : Text) : (out ++ separator out).getLast? = some '\n' := by
  unfold separator
  split
  · rwa [List.append_nil]
  · exact List.getLast?_concat

theorem appendChunk_later (out e : Text) :
    appendChunk out e false = out ++ separator out ++ e := by
  unfold appendChunk separator
  by_cases h : out.getLast? = some '\n'
  · simp [h]
  · simp [h]

theorem separator_append_nil (out : Text) : separator (out ++ separator out ++ []) = [] := by
  rw [List.append_nil, separator, if_pos (getLast?_append_separator out)]

theorem separator_append {e : Text} (h : e ≠ []) (out : Text) :
    separator (out ++ e) = separator e := by
  rw [separator, List.getLast?_append_of_ne_nil out h, separator]

/-- The chunks after the first one. What the text so far ends with is what the last chunk that is
not empty ends with, or the separator put in front of it. -/
theorem appendChunks_later (out : Text) {es : List Text} (h : es ≠ []) :
    appendChunks false out es = out ++ separator out ++ separated (dropEmpty es) := by
  induction es generalizing out with
  | nil => exact absurd rfl h
  | cons e es ih =>
    rw [appendChunks, appendChunk_later]
    cases es with
    | nil => rfl
    | cons e' es =>
      rw [ih _ (List.cons_ne_nil e' es), dropEmpty]
      by_cases he : e = []
      · -- the separator put in front of the empty chunk is the line feed that is seen next
        rw [if_pos he, he, separator_append_nil, List.append_nil, List.append_nil]
      · have hrest := dropEmpty_ne_nil (List.cons_ne_nil e' es)
        rw [if_neg he, separator_append he, separated_cons hrest]
        simp only [List.append_assoc]

theorem joinChunks_eq (es : List Text) : joinChunks es = separated (dropInner es) := by
  cases es with
  | nil => rfl
  | cons e es =>
    have hfirst : joinChunks (e :: es) = appendChunks false e es := rfl
    rw [hfirst, dropInner]
    cases es with
    | nil => rfl
    | cons e' es =>
      have hne := List.cons_ne_nil e' es
      rw [appendChunks_later e hne, separated_cons (dropEmpty_ne_nil hne)]

/-- Each empty chunk before the last takes up a separator. -/
theorem length_separated (es : List Text) :
    (separated es).length = (separated (dropEmpty es)).length + es.dropLast.count [] := by
  fun_induction dropEmpty es with
  | case1 => rfl
  | case2 e => rfl
  | case3 e' es ih =>
    have hempty : separated ([] :: e' :: es) = '\n' :: separated (e' :: es) := rfl
    rw [hempty, List.length_cons, ih, List.dropLast_cons_of_ne_nil (List.cons_ne_nil e' es),
      List.count_cons_self]
    omega
  | case4 e e' es he ih =>
    have hne := List.cons_ne_nil e' es
    rw [separated_cons hne, separated_cons (dropEmpty_ne_nil hne),
      List.dropLast_cons_of_ne_nil hne, List.count_cons_of_ne he]
    simp only [List.length_append]
    omega

theorem dropEmpty_of_not_mem {es : List Text} (h : [] ∉ es.dropLast) : dropEmpty es = es := by
  fun_induction dropEmpty es with
  | case1 => rfl
  | case2 e => rfl
  | case3 e' es ih => exact absurd List.mem_cons_self h
  | case4 e e' es he ih =>
    rw [List.dropLast_cons_of_ne_nil (List.cons_ne_nil e' es)] at h
    rw [ih fun hmem => h (List.mem_cons_of_mem e hmem)]

/-- The text of a section falls short of its separated chunks by one line feed for each empty chunk
between the first and the last one. -/
theorem length_separated_eq (es : List Text) :
    (separated es).length = (joinChunks es).length + (innerChunks es).count [] := by
  rw [joinChunks_eq]
  cases es with
  | nil => rfl
  | cons e es =>
    rw [dropInner, innerChunks, List.tail_cons]
    cases es with
    | nil => rfl
    | cons e' es =>
      have hne := List.cons_ne_nil e' es
      rw [separated_cons hne, separated_cons (dropEmpty_ne_nil hne)]
      simp only [List.length_append]
      rw [length_separated (e' :: es)]
      omega

theorem joinChunks_eq_separated_iff (es : List Text) :
    joinChunks es = separated es ↔ [] ∉ innerChunks es := by
  constructor
  · intro h
    have hlength := length_separated_eq es
    rw [h] at hlength
    apply List.count_eq_zero.1
    omega
  · intro h
    rw [joinChunks_eq]
    cases es with
    | nil => rfl
    | cons e es =>
      have hrest : dropEmpty es = es := dropEmpty_of_not_mem h
      rw [dropInner, hrest]

namespace CodeFile
variable {f : CodeFile} {n : SectionName} {trail after : Trail} {text : Text}

/-- The chunks `es` are those of the section with all markers replaced, as they are rendered under
a trail that leads to the section. -/
def FillsChunks (f : CodeFile) (n : SectionName) (trail : Trail) (es : List Text) : Prop :=
  ∃ s, f.section? n = some s ∧ List.Forall₂ (fun chunk e =>
    Marker.replace f.renderSection chunk (trail.inside n) = (.ok e, trail.inside n)) s.chunks es

theorem exists_fillsChunks (h : f.renderSection n trail = (.ok text, after)) :
    ∃ es, f.FillsChunks n trail es ∧ text = joinChunks es := by
  by_cases hn : n ∈ trail.seen
  · rw [renderSection_of_mem hn] at h
    cases h
  · cases hs : f.section? n with
    | none =>
      rw [renderSection_of_none hn hs] at h
      cases h
    | some s =>
      obtain ⟨_, es, hes, htext⟩ := (renderSection_found_eq_ok_iff hn hs).1 h
      refine ⟨es, ⟨s, hs, hes.imp ?_⟩, htext⟩
      intro chunk e hfilled
      exact (Marker.replace_eq_ok_iff renderSection_restores).2 ⟨rfl, hfilled⟩

theorem FillsChunks.eq {es es' : List Text} (h : f.FillsChunks n trail es)
    (h' : f.FillsChunks n trail es') : es = es' := by
  obtain ⟨s, hs, hes⟩ := h
  obtain ⟨s', hs', hes'⟩ := h'
  cases hs.symm.trans hs'
  refine List.right_unique_forall₂' ?_ hes hes'
  intro chunk e e' he he'
  cases he.symm.trans he'
  rfl

/-- A section that renders has its chunks, with the markers replaced, one after the other. Without
the empty ones between the first and the last, they are separated. As they stand they are
separated exactly when there are no such chunks. -/
theorem renderSection_joins (h : f.renderSection n trail = (.ok text, after)) :
    (∃ es, f.FillsChunks n trail es) ∧ ∀ es, f.FillsChunks n trail es →
      text = separated (dropInner es) ∧ (text = separated es ↔ ∀ e ∈ innerChunks es, e ≠ []) := by
  obtain ⟨es, hes, htext⟩ := exists_fillsChunks h
  refine ⟨⟨es, hes⟩, ?_⟩
  intro es' hes'
  cases hes.eq hes'
  rw [htext, joinChunks_eq_separated_iff]
  refine ⟨joinChunks_eq es, ?_⟩
  constructor
  · intro hinner e he hempty
    exact hinner (hempty ▸ he)
  · intro hinner hmem
    exact hinner [] hmem rfl

/-- The first and the last chunk may be empty, also by a marker for an empty section. -/
theorem renderSection_joins_ends :
    let f : CodeFile := ⟨['f'], [⟨.root, ['f'],
      ["<<e>>".toList, "x\n".toList, "y".toList, []], []⟩, ⟨.named ['e'], ['f'], [[]], []⟩]⟩
    let es : List Text := [[], "x\n".toList, "y".toList, []]
    f.FillsChunks .root (.start ['f']) es ∧ f.render = .ok (separated es) ∧
      separated es = "\nx\ny\n".toList := by
  intro f es
  have hrun : f.renderSection .root (.start ['f']) =
      (.ok "\nx\ny\n".toList, .start ['f']) := by
    decide +kernel
  have hes : f.FillsChunks .root (.start ['f']) es :=
    ⟨_, rfl, .cons (by decide +kernel) (.cons (by decide +kernel) (.cons (by decide +kernel)
      (.cons (by decide +kernel) .nil)))⟩
  obtain ⟨_, hall⟩ := renderSection_joins hrun
  have htext : "\nx\ny\n".toList = separated es := (hall es hes).2.2 (by decide +kernel)
  refine ⟨hes, ?_, htext.symm⟩
  rw [← htext]
  exact render_eq_ok_iff.2 hrun

/-- An empty chunk behind a line feed is joined without a separator of its own. -/
theorem renderSection_joins_hidden :
    let f : CodeFile := ⟨['f'], [⟨.root, ['f'], ["a\n".toList, [], "b".toList], []⟩]⟩
    let es : List Text := ["a\n".toList, [], "b".toList]
    f.FillsChunks .root (.start ['f']) es ∧ f.render = .ok "a\nb".toList ∧
      separated es = "a\n\nb".toList :=
  ⟨⟨_, rfl, .cons (by decide +kernel) (.cons (by decide +kernel) (.cons (by decide +kernel) .nil))⟩,
    by decide +kernel, by decide +kernel⟩

end CodeFile

end Literate
