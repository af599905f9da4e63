import Literate.Proofs.Occurrences

/-!
# Replacing markers with a cursor

The markers of a text can be replaced with a cursor that moves from marker to marker over byte
offsets and copies what lies between. The markers that are found come in order, apart from each
other and between characters, so every slice is there, and the result is that of the scanner. From
this one reads off which texts are put in and what the filler is asked.
-/

namespace Literate

namespace Text
variable {t s r m x y : Text} {a b c n : Nat}

/-- Cuts a text after `n` bytes, unless the text is shorter or a character would be cut. -/
def cutAt? : Nat → Text → Option (Text × Text)
  | 0, t => some ([], t)
  | _ + 1, [] => none
  | n + 1, c :: t =>
    if c.utf8Size ≤ n + 1 then (cutAt? (n + 1 - c.utf8Size) t).map fun (s, r) => (c :: s, r)
    else none

theorem cutAt?_zero (t : Text) : cutAt? 0 t = some ([], t) := by
  cases t <;> rfl

theorem cutAt?_append (s r : Text) : cutAt? (byteLength s) (s ++ r) = some (s, r) := by
  induction s with
  | nil => exact cutAt?_zero r
  | cons c s ih =>
    obtain ⟨k, hk⟩ := Nat.exists_eq_add_of_lt c.utf8Size_pos
    have hlength : byteLength (c :: s) = byteLength s + k + 1 := by
      rw [byteLength_cons]
      omega
    have hrest : byteLength s + k + 1 - c.utf8Size = byteLength s := by omega
    rw [hlength, List.cons_append, cutAt?, if_pos (by omega), hrest, ih]
    rfl

theorem eq_of_cutAt? (h : cutAt? n t = some (s, r)) : t = s ++ r ∧ byteLength s = n := by
  fun_induction cutAt? n t generalizing s with
  | case1 t =>
    cases h
    exact ⟨rfl, rfl⟩
  | case2 n => cases h
  | case3 n c t hle ih =>
    obtain ⟨⟨s', r'⟩, hcut, he⟩ := Option.map_eq_some_iff.1 h
    cases he
    obtain ⟨rfl, hs⟩ := ih hcut
    refine ⟨rfl, ?_⟩
    rw [byteLength_cons]
    omega
  | case4 n c t hlong => cases h

theorem cutAt?_eq_some_iff : cutAt? n t = some (s, r) ↔ t = s ++ r ∧ byteLength s = n := by
  constructor
  · exact eq_of_cutAt?
  · rintro ⟨rfl, rfl⟩
    exact cutAt?_append s r

/-- The characters from one byte offset to another. There is no answer unless the offsets are in
this order, lie in the text, and cut no character. -/
def slice? (t : Text) (start stop : Nat) : Option Text :=
  if start ≤ stop then
    (cutAt? start t).bind fun (_, rest) => (cutAt? (stop - start) rest).map Prod.fst
  else none

theorem slice?_eq_some_iff :
    slice? t a b = some m ↔
      ∃ before after, t = before ++ (m ++ after) ∧ byteLength before = a ∧
        byteLength before + byteLength m = b := by
  rw [slice?]
  constructor
  · intro h
    split at h
    · rename_i hle
      obtain ⟨⟨before, rest⟩, hfirst, h⟩ := Option.bind_eq_some_iff.1 h
      obtain ⟨⟨m', after⟩, hsecond, hm'⟩ := Option.map_eq_some_iff.1 h
      obtain rfl : m' = m := hm'
      obtain ⟨rfl, hbefore⟩ := cutAt?_eq_some_iff.1 hfirst
      obtain ⟨rfl, hm⟩ := cutAt?_eq_some_iff.1 hsecond
      exact ⟨before, after, rfl, hbefore, by omega⟩
    · cases h
  · rintro ⟨before, after, rfl, rfl, rfl⟩
    rw [if_pos (Nat.le_add_right _ _), cutAt?_append, Nat.add_sub_cancel_left]
    simp only [Option.bind_some, cutAt?_append, Option.map_some]

theorem slice?_between (before m after : Text) :
    slice? (before ++ (m ++ after)) (byteLength before) (byteLength before + byteLength m) =
      some m :=
  slice?_eq_some_iff.2 ⟨before, after, rfl, rfl, rfl⟩

theorem slice?_whole (t : Text) : slice? t 0 (byteLength t) = some t :=
  slice?_eq_some_iff.2 ⟨[], [], by simp, rfl, by simp⟩

/-- Slices that meet make up one slice. -/
theorem slice?_trans (hx : slice? t a b = some x) (hy : slice? t b c = some y) :
    slice? t a c = some (x ++ y) := by
  obtain ⟨before, after, ht, ha, hb⟩ := slice?_eq_some_iff.1 hx
  obtain ⟨before', after', ht', hb', hc⟩ := slice?_eq_some_iff.1 hy
  have hcut : cutAt? b t = some (before ++ x, after) :=
    cutAt?_eq_some_iff.2 ⟨by rw [ht, List.append_assoc], by rw [byteLength_append, hb]⟩
  rw [cutAt?_eq_some_iff.2 ⟨ht', hb'⟩] at hcut
  cases hcut
  refine slice?_eq_some_iff.2 ⟨before, after', ?_, ha, ?_⟩
  · rw [ht', List.append_assoc, List.append_assoc]
  · rw [byteLength_append]
    omega

/-- The offset lies in the text, and between characters. -/
def IsBoundary (t : Text) (n : Nat) : Prop :=
  ∃ s r, t = s ++ r ∧ byteLength s = n

theorem exists_slice?_iff :
    (∃ m, slice? t a b = some m) ↔ a ≤ b ∧ IsBoundary t a ∧ IsBoundary t b := by
  constructor
  · rintro ⟨m, hm⟩
    obtain ⟨before, after, ht, ha, hb⟩ := slice?_eq_some_iff.1 hm
    refine ⟨by omega, ⟨before, _, ht, ha⟩, ⟨before ++ m, after, ?_, ?_⟩⟩
    · rw [ht, List.append_assoc]
    · rw [byteLength_append, hb]
  · rintro ⟨hle, ⟨s, r, hs, rfl⟩, ⟨s', r', hs', rfl⟩⟩
    rcases List.append_eq_append_iff.1 (hs.symm.trans hs') with ⟨u, rfl, rfl⟩ | ⟨u, rfl, rfl⟩
    · exact ⟨u, slice?_eq_some_iff.2 ⟨s, r', hs, rfl, byteLength_append s u ▸ rfl⟩⟩
    · -- the later offset comes out first only if both are the same
      rw [byteLength_append] at hle
      obtain rfl : u = [] := byteLength_eq_zero.1 (by omega)
      exact ⟨[], slice?_eq_some_iff.2 ⟨s', r, by simpa using hs', by simp, by simp⟩⟩

end Text

namespace Marker
variable {σ ε : Type} {fill : SectionName → σ → Except ε Text × σ} {s s' s₁ : σ} {e : ε}

/-- Replaces the markers with a cursor. In front of each marker the text from the cursor on is
copied, then the text for the marker follows and the cursor goes to its end. Without one of the
slices there is no result. -/
def splice? (fill : SectionName → σ → Except ε Text × σ) (t : Text) :
    Nat → List Found → Text → σ → Option (Except ε Text × σ)
  | last, [], out, s =>
    (Text.slice? t last (Text.byteLength t)).map fun rest => (.ok (out ++ rest), s)
  | last, m :: ms, out, s =>
    (Text.slice? t last m.start).bind fun gap =>
      match fill m.name s with
      | (.error e, s) => some (.error e, s)
      | (.ok u, s) => splice? fill t m.stop ms (out ++ gap ++ u) s

section Cursor
variable {t gap out u : Text} {last : Nat} {m : Found} {ms : List Found}

theorem splice?_cons_of_ok (hgap : Text.slice? t last m.start = some gap)
    (hu : fill m.name s = (.ok u, s')) :
    splice? fill t last (m :: ms) out s = splice? fill t m.stop ms (out ++ gap ++ u) s' := by
  simp only [splice?, hgap, Option.bind_some, hu]

theorem splice?_cons_of_error (hgap : Text.slice? t last m.start = some gap)
    (he : fill m.name s = (.error e, s')) :
    splice? fill t last (m :: ms) out s = some (.error e, s') := by
  simp only [splice?, hgap, Option.bind_some, he]

theorem prepend_append (u v : Text) (r : Except ε Text × σ) :
    prepend (u ++ v) r = prepend u (prepend v r) := by
  obtain ⟨_ | t, s⟩ := r
  · rfl
  · simp [prepend]

/-- Between markers the cursor stays behind: `gap` has been read and not copied yet. -/
theorem splice?_foundFrom (before gap rest out : Text) (s : σ) :
    splice? fill (before ++ (gap ++ rest)) (Text.byteLength before)
        (foundFrom (Text.byteLength before + Text.byteLength gap) (pieces rest)) out s =
      some (prepend (out ++ gap) (replace fill rest s)) := by
  induction rest using scan_induction generalizing before gap out s with
  | nil =>
    have hslice := Text.slice?_between before gap []
    rw [← Text.byteLength_append, ← List.append_nil (before ++ gap), List.append_assoc] at hslice
    rw [pieces_nil, foundFrom, splice?, hslice, replace_nil]
    simp [prepend]
  | char c cs hnone ih =>
    have hih := ih before (gap ++ [c]) out s
    rw [List.append_assoc, List.singleton_append, Text.byteLength_append, Text.byteLength_cons,
      Text.byteLength_nil, Nat.add_zero, ← Nat.add_assoc, ← List.append_assoc out gap] at hih
    rw [foundFrom_of_no_marker hnone, replace_cons hnone, ← prepend_append]
    exact hih
  | marker m n rest hm ih =>
    have hgap := Text.slice?_between before gap (m ++ rest)
    rw [hm.foundFrom]
    rcases hu : fill n s with ⟨e | u, after⟩
    · rw [splice?_cons_of_error hgap hu, replace_append_of_error hm hu]
      rfl
    · have hih := ih (before ++ (gap ++ m)) [] (out ++ gap ++ u) after
      simp only [Text.byteLength_append, Text.byteLength_nil, Nat.add_zero, List.nil_append,
        List.append_nil, List.append_assoc, ← Nat.add_assoc] at hih
      rw [splice?_cons_of_ok hgap hu, replace_append_of_ok hm hu, ← prepend_append,
        List.append_assoc]
      exact hih

/-- The cursor finds every slice, and replaces what the scanner replaces. -/
theorem splice?_find (fill : SectionName → σ → Except ε Text × σ) (t : Text) (s : σ) :
    splice? fill t 0 (find t) [] s = some (replace fill t s) := by
  have hsplice : splice? fill t 0 (find t) [] s = some (prepend [] (replace fill t s)) :=
    splice?_foundFrom [] [] t [] s
  rw [hsplice]
  obtain ⟨_ | u, s'⟩ := replace fill t s <;> rfl

end Cursor

/-- `Cut t pos ms gaps sources`: from `pos` on, the text is cut at the bytes of the markers `ms`. The
markers are written as in `sources`, and `gaps` is what stands before, between and behind them. -/
inductive Cut (t : Text) : Nat → List Found → List Text → List Text → Prop where
  | rest {pos : Nat} {gap : Text} (behind : Text.slice? t pos (Text.byteLength t) = some gap) :
      Cut t pos [] [gap] []
  | marker {pos : Nat} {m : Found} {ms : List Found} {gap source : Text}
      {gaps sources : List Text} (before : Text.slice? t pos m.start = some gap)
      (here : Text.slice? t m.start m.stop = some source) (tail : Cut t m.stop ms gaps sources) :
      Cut t pos (m :: ms) (gap :: gaps) (source :: sources)

/-- Puts texts into gaps. -/
def weave : List Text → List Text → Text
  | gap :: gaps, u :: us => gap ++ u ++ weave gaps us
  | gap :: _, [] => gap
  | [], _ => []

/-- Asked for the names one after the other, the filler gives these texts; its state goes from the
first one to the second one. -/
inductive Answers (fill : SectionName → σ → Except ε Text × σ) :
    σ → List SectionName → List Text → σ → Prop where
  | nil (s : σ) : Answers fill s [] [] s
  | cons {s s₁ s' : σ} {n : SectionName} {ns : List SectionName} {u : Text} {us : List Text}
      (first : fill n s = (.ok u, s₁)) (tail : Answers fill s₁ ns us s') :
      Answers fill s (n :: ns) (u :: us) s'

theorem answers_or_failure (fill : SectionName → σ → Except ε Text × σ) (s : σ)
    (ns : List SectionName) :
    (∃ us s', Answers fill s ns us s') ∨
      ∃ earlier n later us s₁ e s', ns = earlier ++ n :: later ∧ Answers fill s earlier us s₁ ∧
        fill n s₁ = (.error e, s') := by
  induction ns generalizing s with
  | nil => exact .inl ⟨[], s, .nil s⟩
  | cons n ns ih =>
    rcases hu : fill n s with ⟨e | u, after⟩
    · exact .inr ⟨[], n, ns, [], s, e, after, rfl, .nil s, hu⟩
    · rcases ih after with ⟨us, s', hus⟩ | ⟨earlier, n', later, us, s₁, e, s', rfl, hus, he⟩
      · exact .inl ⟨u :: us, s', .cons hu hus⟩
      · exact .inr ⟨n :: earlier, n', later, u :: us, s₁, e, s', rfl, .cons hu hus, he⟩

section Cutting
variable {t out : Text} {pos : Nat} {ms : List Found} {gaps sources us : List Text}
  {earlier later : List SectionName} {n : SectionName}

theorem Cut.slice?_weave (h : Cut t pos ms gaps sources) :
    Text.slice? t pos (Text.byteLength t) = some (weave gaps sources) := by
  induction h with
  | rest behind => exact behind
  | marker before here _ ih =>
    exact Text.slice?_trans (Text.slice?_trans before here) ih

theorem Cut.sources_eq (h : Cut t pos ms gaps sources)
    (hus : List.Forall₂ (fun m u => Text.slice? t m.start m.stop = some u) ms us) :
    us = sources := by
  induction h generalizing us with
  | rest _ =>
    cases hus
    rfl
  | marker _ here _ ih =>
    cases hus with
    | cons first tail =>
      rw [here] at first
      rw [Option.some.inj first, ih tail]

theorem Cut.splice?_of_answers (h : Cut t pos ms gaps sources)
    (hus : Answers fill s (ms.map Found.name) us s') :
    splice? fill t pos ms out s = some (.ok (out ++ weave gaps us), s') := by
  induction h generalizing s us out with
  | rest behind =>
    cases hus
    rw [splice?, behind]
    rfl
  | marker before here _ ih =>
    cases hus with
    | cons first tail =>
      rw [splice?_cons_of_ok before first, ih tail, weave]
      simp only [List.append_assoc]

theorem Cut.splice?_of_failure (h : Cut t pos ms gaps sources)
    (hns : ms.map Found.name = earlier ++ n :: later) (hus : Answers fill s earlier us s₁)
    (he : fill n s₁ = (.error e, s')) : splice? fill t pos ms out s = some (.error e, s') := by
  induction h generalizing s us out earlier with
  | rest behind => simp at hns
  | marker before here _ ih =>
    cases hus with
    | nil =>
      obtain ⟨hn, _⟩ := List.cons.inj hns
      exact splice?_cons_of_error before (hn ▸ he)
    | cons first tail =>
      obtain ⟨hn, hrest⟩ := List.cons.inj hns
      rw [splice?_cons_of_ok before (hn ▸ first)]
      exact ih hrest tail

theorem Occurs.exists_slice? {m : Found} (h : Occurs t m) :
    ∃ source, Text.slice? t m.start m.stop = some source ∧ Spells source m.name := by
  cases h with
  | @intro before source after n split spells =>
    refine ⟨source, ?_, spells⟩
    rw [split, List.append_assoc]
    exact Text.slice?_between before source after

/-- A text is cut at occurrences of markers that come one behind the other. -/
theorem exists_cut (hpos : Text.IsBoundary t pos) (hle : ∀ m ∈ ms, pos ≤ m.start)
    (hoccur : ∀ m ∈ ms, Occurs t m) (hapart : ms.Pairwise fun a b => a.stop ≤ b.start) :
    ∃ gaps sources, Cut t pos ms gaps sources ∧
      List.Forall₂ Spells sources (ms.map Found.name) := by
  induction ms generalizing pos with
  | nil =>
    have hend : Text.IsBoundary t (Text.byteLength t) := ⟨t, [], by simp, rfl⟩
    have hinside : pos ≤ Text.byteLength t := by
      obtain ⟨before, after, rfl, rfl⟩ := hpos
      rw [Text.byteLength_append]
      omega
    obtain ⟨gap, hgap⟩ := Text.exists_slice?_iff.2 ⟨hinside, hpos, hend⟩
    exact ⟨[gap], [], .rest hgap, .nil⟩
  | cons m ms ih =>
    obtain ⟨hm, hoccur⟩ := List.forall_mem_cons.1 hoccur
    obtain ⟨hstop, hapart⟩ := List.pairwise_cons.1 hapart
    obtain ⟨source, hsource, hspells⟩ := hm.exists_slice?
    obtain ⟨_, hstart, hend⟩ := Text.exists_slice?_iff.1 ⟨source, hsource⟩
    obtain ⟨gap, hgap⟩ := Text.exists_slice?_iff.2 ⟨hle m List.mem_cons_self, hpos, hstart⟩
    obtain ⟨gaps, sources, hcut, hall⟩ := ih hend hstop hoccur hapart
    exact ⟨gap :: gaps, source :: sources, .marker hgap hsource hcut, .cons hspells hall⟩

theorem exists_cut_find (t : Text) :
    ∃ gaps sources, Cut t 0 (find t) gaps sources ∧
      List.Forall₂ Spells sources ((find t).map Found.name) :=
  exists_cut ⟨[], t, rfl, rfl⟩ (fun _ _ => Nat.zero_le _) (fun _ hm => mem_find_iff.1 hm)
    (pairwise_foundFrom 0 (pieces t))

section Find
variable (h : Cut t 0 (find t) gaps sources)
include h

theorem Cut.weave_eq : weave gaps sources = t := by
  have hwhole := h.slice?_weave
  rw [Text.slice?_whole] at hwhole
  exact (Option.some.inj hwhole).symm

theorem Cut.replace_of_answers (hus : Answers fill s ((find t).map Found.name) us s') :
    replace fill t s = (.ok (weave gaps us), s') := by
  have hsplice := splice?_find fill t s
  rw [h.splice?_of_answers hus] at hsplice
  exact (Option.some.inj hsplice).symm

theorem Cut.replace_of_failure (hns : (find t).map Found.name = earlier ++ n :: later)
    (hus : Answers fill s earlier us s₁) (he : fill n s₁ = (.error e, s')) :
    replace fill t s = (.error e, s') := by
  have hsplice := splice?_find fill t s
  rw [h.splice?_of_failure hns hus he] at hsplice
  exact (Option.some.inj hsplice).symm

end Find

end Cutting

/-- A filler that writes down what it is asked: each name, with the state at that time. -/
def logged (fill : SectionName → σ → Except ε Text × σ) (n : SectionName)
    (s : σ × List (SectionName × σ)) : Except ε Text × σ × List (SectionName × σ) :=
  ((fill n s.1).1, (fill n s.1).2, s.2 ++ [(n, s.1)])

/-- The names that the filler is asked for, in this order. -/
def asked (fill : SectionName → σ → Except ε Text × σ) (t : Text) (s : σ) : List SectionName :=
  (replace (logged fill) t (s, [])).2.2.map Prod.fst

section Asking
variable {t : Text} {gaps sources us : List Text} {ns earlier later : List SectionName}
  {n : SectionName}

/-- The log changes no answer. A filler that hands on its state is asked in that same state each
time. -/
theorem Answers.exists_logged (h : Answers fill s ns us s') (log : List (SectionName × σ)) :
    ∃ calls, Answers (logged fill) (s, log) ns us (s', log ++ calls) ∧ calls.map Prod.fst = ns ∧
      (Restores fill → s' = s ∧ ∀ c ∈ calls, c.2 = s) := by
  induction h generalizing log with
  | nil s =>
    refine ⟨[], ?_, rfl, fun _ => ⟨rfl, by simp⟩⟩
    rw [List.append_nil]
    exact .nil (s, log)
  | @cons s s₁ s' n ns u us first _ ih =>
    have hfirst : logged fill n (s, log) = (.ok u, s₁, log ++ [(n, s)]) := by
      simp only [logged, first]
    obtain ⟨calls, hcalls, hns, hstates⟩ := ih (log ++ [(n, s)])
    rw [← List.append_cons] at hcalls
    refine ⟨(n, s) :: calls, .cons hfirst hcalls, by rw [List.map_cons, hns], ?_⟩
    intro restores
    obtain rfl := restores _ _ _ _ first
    exact ⟨(hstates restores).1, List.forall_mem_cons.2 ⟨rfl, (hstates restores).2⟩⟩

theorem logged_of_error (he : fill n s = (.error e, s')) (log : List (SectionName × σ)) :
    logged fill n (s, log) = (.error e, s', log ++ [(n, s)]) := by
  simp only [logged, he]

variable (h : Cut t 0 (find t) gaps sources)
include h

theorem Cut.asked_of_answers (hus : Answers fill s ((find t).map Found.name) us s') :
    asked fill t s = (find t).map Found.name := by
  obtain ⟨calls, hcalls, hns, _⟩ := hus.exists_logged []
  rw [asked, h.replace_of_answers hcalls]
  exact hns

theorem Cut.asked_of_failure (hns : (find t).map Found.name = earlier ++ n :: later)
    (hus : Answers fill s earlier us s₁) (he : fill n s₁ = (.error e, s')) :
    asked fill t s = earlier ++ [n] := by
  obtain ⟨calls, hcalls, hearlier, _⟩ := hus.exists_logged []
  rw [asked, h.replace_of_failure hns hcalls (logged_of_error he _), List.nil_append,
    List.map_append, hearlier]
  rfl

end Asking

/-- A text is cut at the markers that are found in it, and putting their sources back gives the text.
Replacing the markers is what a cursor does that takes one slice after the other, none of them out of
range or through a character. The filler is asked for the name of each marker once and in order, and
its texts come into the gaps as they are; or it is asked up to the first name for which it fails, and
this failure is the result. If it gives the source of every marker, the text comes back. -/
theorem replace_eq_weave (fill : SectionName → σ → Except ε Text × σ) (t : Text) (s : σ) :
    ∃ gaps sources, Cut t 0 (find t) gaps sources ∧ weave gaps sources = t ∧
      List.Forall₂ Spells sources ((find t).map Found.name) ∧
      splice? fill t 0 (find t) [] s = some (replace fill t s) ∧
      ((∃ us s', Answers fill s ((find t).map Found.name) us s' ∧
          asked fill t s = (find t).map Found.name ∧
          replace fill t s = (.ok (weave gaps us), s')) ∨
        ∃ earlier n later us s₁ e s', (find t).map Found.name = earlier ++ n :: later ∧
          Answers fill s earlier us s₁ ∧ fill n s₁ = (.error e, s') ∧
          asked fill t s = earlier ++ [n] ∧ replace fill t s = (.error e, s')) ∧
      ∀ us s', Answers fill s ((find t).map Found.name) us s' →
        List.Forall₂ (fun m u => Text.slice? t m.start m.stop = some u) (find t) us →
        replace fill t s = (.ok t, s') := by
  obtain ⟨gaps, sources, hcut, hspells⟩ := exists_cut_find t
  refine ⟨gaps, sources, hcut, hcut.weave_eq, hspells, splice?_find fill t s, ?_, ?_⟩
  · rcases answers_or_failure fill s ((find t).map Found.name) with
      ⟨us, s', hus⟩ | ⟨earlier, n, later, us, s₁, e, s', hns, hus, he⟩
    · exact .inl ⟨us, s', hus, hcut.asked_of_answers hus, hcut.replace_of_answers hus⟩
    · exact .inr ⟨earlier, n, later, us, s₁, e, s', hns, hus, he,
        hcut.asked_of_failure hns hus he, hcut.replace_of_failure hns hus he⟩
  · intro us s' hus hsources
    rw [hcut.replace_of_answers hus, hcut.sources_eq hsources, hcut.weave_eq]

/-- A filler that counts gives the two markers back, in the order in which they are found. -/
theorem replace_eq_weave_sources :
    let t := "ä <<x>>²<<#größe>>".toList
    let fill : SectionName → Nat → Except Unit Text × Nat := fun _ k =>
      (.ok (if k = 0 then "<<x>>".toList else "<<#größe>>".toList), k + 1)
    find t = [⟨.named "x".toList, 3, 8⟩, ⟨.named "größe".toList, 10, 22⟩] ∧
      replace fill t 0 = (.ok t, 2) := by
  intro t fill
  have hfind : find t = [⟨.named "x".toList, 3, 8⟩, ⟨.named "größe".toList, 10, 22⟩] := by
    decide +kernel
  obtain ⟨_, _, _, _, _, _, _, hback⟩ := replace_eq_weave fill t 0
  refine ⟨hfind, hback ["<<x>>".toList, "<<#größe>>".toList] 2 ?_ ?_⟩
  · rw [hfind]
    exact .cons rfl (.cons rfl (.nil 2))
  · rw [hfind]
    exact .cons (by decide +kernel) (.cons (by decide +kernel) .nil)

/-- The third marker is not reached. -/
example :
    let fill : SectionName → Nat → Except Nat Text × Nat := fun _ k =>
      (if k = 1 then .error k else .ok "<<z>>".toList, k + 1)
    let t := "<<a>> <<b>> <<a>>".toList
    asked fill t 0 = [.named ['a'], .named ['b']] ∧ replace fill t 0 = (.error 1, 2) := by
  decide +kernel

end Marker

end Literate
