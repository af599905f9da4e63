import Literate.Glob.Match
import Mathlib.Data.List.Basic

/-!
# What patterns match

A token takes some beginning of a text and leaves an end of it. Matching keeps the set of all ends
that the tokens so far may leave, and so a text matches exactly if its tokens, one after the other,
may leave nothing.
-/

namespace Literate.Glob
variable {literalSlash here marked : Bool} {es : Ends} {ks ls : List Token} {s t r x : Text}
  {accepts stops : Char → Bool}

/-- The token may take the beginning of `s` that stands before its end `r`. -/
def Token.Takes (literalSlash : Bool) (s r : Text) : Token → Prop
  | anySequence => ∃ u, s = u ++ r ∧ ∀ c ∈ u, (literalSlash && c = '/') = false
  | anyRecursive => r = s ∨ r = [] ∨ ∃ u, s = u ++ '/' :: r
  | k => ∃ c, s = c :: r ∧ k.accepts literalSlash c = true

/-- The tokens may take the beginning of `s` that stands before its end `r`. -/
def Leaves (literalSlash : Bool) : List Token → Text → Text → Prop
  | [], s, r => s = r
  | k :: ks, s, r => ∃ m, k.Takes literalSlash s m ∧ Leaves literalSlash ks m r

theorem leaves_append :
    Leaves literalSlash (ks ++ ls) s r ↔
      ∃ m, Leaves literalSlash ks s m ∧ Leaves literalSlash ls m r := by
  induction ks generalizing s with
  | nil => simp [Leaves]
  | cons k ks ih =>
    simp only [List.cons_append, Leaves, ih]
    constructor
    · rintro ⟨m, hm, m', hm', hr⟩
      exact ⟨m', ⟨m, hm, hm'⟩, hr⟩
    · rintro ⟨m', ⟨m, hm, hm'⟩, hr⟩
      exact ⟨m, hm, m', hm', hr⟩

/-- What follows a text does not matter to tokens other than `**`. -/
theorem Leaves.append (h : Leaves literalSlash ks s r) (hks : .anyRecursive ∉ ks) (x : Text) :
    Leaves literalSlash ks (s ++ x) (r ++ x) := by
  induction ks generalizing s with
  | nil => exact congrArg (· ++ x) h
  | cons k ks ih =>
    obtain ⟨m, hm, hr⟩ := h
    rw [List.mem_cons, not_or] at hks
    obtain ⟨hk, hks⟩ := hks
    refine ⟨m ++ x, ?_, ih hr hks⟩
    cases k with
    | anyRecursive => exact absurd rfl hk
    | anySequence =>
      obtain ⟨u, rfl, hu⟩ := hm
      exact ⟨u, List.append_assoc u m x, hu⟩
    | char | anyChar | within | outside =>
      obtain ⟨c, rfl, hc⟩ := hm
      exact ⟨c, rfl, hc⟩

/-- Two `**` in a row take no more than one. -/
theorem takes_anyRecursive_trans (h : Token.anyRecursive.Takes literalSlash s t)
    (h' : Token.anyRecursive.Takes literalSlash t r) :
    Token.anyRecursive.Takes literalSlash s r := by
  rcases h' with rfl | rfl | ⟨u, rfl⟩
  · exact h
  · exact .inr (.inl rfl)
  · rcases h with rfl | hnil | ⟨v, rfl⟩
    · exact .inr (.inr ⟨u, rfl⟩)
    · exact absurd hnil (by simp)
    · exact .inr (.inr ⟨v ++ '/' :: u, by simp⟩)

namespace Ends

/-- The end `r` of the text is marked. -/
def Marks : Ends → Text → Text → Prop
  | [], _, _ => False
  | e :: _, [], r => e = true ∧ r = []
  | e :: es, c :: cs, r => (e = true ∧ r = c :: cs) ∨ Marks es cs r

/-- One mark for each end. -/
def Fit (es : Ends) (t : Text) : Prop :=
  es.length = t.length + 1

theorem marks_dropOne (h : es.Fit t) :
    (es.dropOne accepts here t).Marks t r ↔
      (here = true ∧ r = t) ∨ ∃ c, accepts c = true ∧ es.Marks t (c :: r) := by
  induction t generalizing es here with
  | nil =>
    cases es with
    | nil => cases h
    | cons e es => simp [dropOne, Marks]
  | cons c cs ih =>
    cases es with
    | nil => cases h
    | cons e es =>
      have hfit : Fit es cs := Nat.succ.inj h
      simp only [dropOne, Marks, ih hfit, Bool.and_eq_true]
      constructor
      · rintro (hhere | ⟨⟨he, hc⟩, rfl⟩ | ⟨d, hd, hmarks⟩)
        · exact .inl hhere
        · exact .inr ⟨c, hc, .inl ⟨he, rfl⟩⟩
        · exact .inr ⟨d, hd, .inr hmarks⟩
      · rintro (hhere | ⟨d, hd, ⟨he, heq⟩ | hmarks⟩)
        · exact .inl hhere
        · obtain ⟨rfl, rfl⟩ := List.cons.inj heq
          exact .inr (.inl ⟨⟨he, hd⟩, rfl⟩)
        · exact .inr (.inr ⟨d, hd, hmarks⟩)

theorem marks_dropRun (h : es.Fit t) :
    (es.dropRun stops here t).Marks t r ↔
      ∃ s, (here = true ∧ s = t ∨ es.Marks t s) ∧ ∃ u, s = u ++ r ∧ ∀ c ∈ u, stops c = false := by
  induction t generalizing es here with
  | nil =>
    cases es with
    | nil => cases h
    | cons e es =>
      simp only [dropRun, Marks, Bool.or_eq_true]
      constructor
      · rintro ⟨he, rfl⟩
        exact ⟨[], he.imp (⟨·, rfl⟩) (⟨·, rfl⟩), [], rfl, by simp⟩
      · rintro ⟨s, hs, u, hu, _⟩
        obtain rfl : s = [] := hs.elim (·.2) (·.2)
        exact ⟨hs.imp (·.1) (·.1), (List.append_eq_nil_iff.1 hu.symm).2⟩
  | cons c cs ih =>
    cases es with
    | nil => cases h
    | cons e es =>
      have hfit : Fit es cs := Nat.succ.inj h
      simp only [dropRun, Marks, ih hfit, Bool.and_eq_true, Bool.or_eq_true, Bool.not_eq_true']
      constructor
      · rintro (⟨he, rfl⟩ | ⟨s, ⟨⟨he, hc⟩, rfl⟩ | hs, u, hu, hstops⟩)
        · exact ⟨c :: cs, he.imp (⟨·, rfl⟩) fun he => .inl ⟨he, rfl⟩, [], rfl, by simp⟩
        · refine ⟨c :: s, he.imp (⟨·, rfl⟩) fun he => .inl ⟨he, rfl⟩, c :: u, ?_, ?_⟩
          · rw [hu, List.cons_append]
          · exact List.forall_mem_cons.2 ⟨hc, hstops⟩
        · exact ⟨s, .inr (.inr hs), u, hu, hstops⟩
      · rintro ⟨s, hs, u, hu, hstops⟩
        have hs : (here = true ∨ e = true) ∧ s = c :: cs ∨ Marks es cs s := by
          rcases hs with ⟨hhere, rfl⟩ | ⟨he, rfl⟩ | hs
          · exact .inl ⟨.inl hhere, rfl⟩
          · exact .inl ⟨.inr he, rfl⟩
          · exact .inr hs
        rcases hs with ⟨he, rfl⟩ | hs
        · cases u with
          | nil => exact .inl ⟨he, hu.symm⟩
          | cons d u =>
            obtain ⟨rfl, hcs⟩ := List.cons.inj hu
            obtain ⟨hc, hstops⟩ := List.forall_mem_cons.1 hstops
            exact .inr ⟨cs, .inl ⟨⟨he, hc⟩, rfl⟩, u, hcs, hstops⟩
        · exact .inr ⟨s, .inr hs, u, hu, hstops⟩

theorem marks_dropComponents (literalSlash : Bool) (h : es.Fit t)
    (hmarked : here = true → marked = true) :
    (es.dropComponents marked here t).Marks t r ↔
      here = true ∧ r = t ∨ marked = true ∧ (r = [] ∨ ∃ u, t = u ++ '/' :: r) ∨
        ∃ s, es.Marks t s ∧ Token.anyRecursive.Takes literalSlash s r := by
  induction t generalizing es here marked with
  | nil =>
    cases es with
    | nil => cases h
    | cons e es =>
      simp only [dropComponents, Marks, Token.Takes, Bool.or_eq_true]
      constructor
      · rintro ⟨he | he, rfl⟩
        · exact .inr (.inl ⟨he, .inl rfl⟩)
        · exact .inr (.inr ⟨[], ⟨he, rfl⟩, .inl rfl⟩)
      · rintro (⟨hhere, rfl⟩ | ⟨hm, rfl | ⟨u, hu⟩⟩ | ⟨s, ⟨he, rfl⟩, rfl | rfl | ⟨u, hu⟩⟩)
        · exact ⟨.inl (hmarked hhere), rfl⟩
        · exact ⟨.inl hm, rfl⟩
        · simp at hu
        · exact ⟨.inr he, rfl⟩
        · exact ⟨.inr he, rfl⟩
        · simp at hu
  | cons c cs ih =>
    cases es with
    | nil => cases h
    | cons e es =>
      have hfit : Fit es cs := Nat.succ.inj h
      have hnext : ((marked || e) && decide (c = '/')) = true → (marked || e) = true :=
        fun hboth => (Bool.and_eq_true _ _ ▸ hboth).1
      simp only [dropComponents, Marks, ih hfit hnext, Bool.and_eq_true, Bool.or_eq_true,
        decide_eq_true_eq]
      -- An end of `c :: cs` behind a separator is `cs` itself or an end of `cs` behind one.
      have hbehind : (∃ u, c :: cs = u ++ '/' :: r) ↔
          c = '/' ∧ r = cs ∨ ∃ u, cs = u ++ '/' :: r := by
        constructor
        · rintro ⟨u, hu⟩
          cases u with
          | nil =>
            obtain ⟨hc, hcs⟩ := List.cons.inj hu
            exact .inl ⟨hc, hcs.symm⟩
          | cons d u => exact .inr ⟨u, (List.cons.inj hu).2⟩
        · rintro (⟨rfl, rfl⟩ | ⟨u, rfl⟩)
          · exact ⟨[], rfl⟩
          · exact ⟨c :: u, rfl⟩
      have hsplit : (∃ s, (e = true ∧ s = c :: cs ∨ Marks es cs s) ∧
            Token.anyRecursive.Takes literalSlash s r) ↔
          e = true ∧ (r = c :: cs ∨ r = [] ∨ ∃ u, c :: cs = u ++ '/' :: r) ∨
            ∃ s, Marks es cs s ∧ Token.anyRecursive.Takes literalSlash s r := by
        constructor
        · rintro ⟨s, ⟨he, rfl⟩ | hs, htakes⟩
          · exact .inl ⟨he, htakes⟩
          · exact .inr ⟨s, hs, htakes⟩
        · rintro (⟨he, htakes⟩ | ⟨s, hs, htakes⟩)
          · exact ⟨c :: cs, .inl ⟨he, rfl⟩, htakes⟩
          · exact ⟨s, .inr hs, htakes⟩
      rw [hsplit, hbehind]
      constructor
      · rintro (⟨hhere | he, rfl⟩ | ⟨⟨hm | he, hc⟩, rfl⟩ | ⟨hm | he, hr⟩ | hs)
        · exact .inl ⟨hhere, rfl⟩
        · exact .inr (.inr (.inl ⟨he, .inl rfl⟩))
        · exact .inr (.inl ⟨hm, .inr (.inl ⟨hc, rfl⟩)⟩)
        · exact .inr (.inr (.inl ⟨he, .inr (.inr (.inl ⟨hc, rfl⟩))⟩))
        · exact .inr (.inl ⟨hm, hr.imp_right .inr⟩)
        · exact .inr (.inr (.inl ⟨he, .inr (hr.imp_right .inr)⟩))
        · exact .inr (.inr (.inr hs))
      · have hlater : (marked = true ∨ e = true) →
            (r = [] ∨ c = '/' ∧ r = cs ∨ ∃ u, cs = u ++ '/' :: r) →
            ((marked = true ∨ e = true) ∧ c = '/') ∧ r = cs ∨
              (marked = true ∨ e = true) ∧ (r = [] ∨ ∃ u, cs = u ++ '/' :: r) := by
          rintro hm (hnil | ⟨hc, hr⟩ | hu)
          · exact .inr ⟨hm, .inl hnil⟩
          · exact .inl ⟨⟨hm, hc⟩, hr⟩
          · exact .inr ⟨hm, .inr hu⟩
        rintro (⟨hhere, rfl⟩ | ⟨hm, hr⟩ | ⟨he, rfl | hr⟩ | hs)
        · exact .inl ⟨.inl hhere, rfl⟩
        · exact .inr ((hlater (.inl hm) hr).imp_right .inl)
        · exact .inl ⟨.inr he, rfl⟩
        · exact .inr ((hlater (.inr he) hr).imp_right .inl)
        · exact .inr (.inr (.inr hs))

/-- One accepted character in front of what is left. -/
theorem marks_dropOne_false (h : es.Fit t) :
    (es.dropOne accepts false t).Marks t r ↔
      ∃ s, es.Marks t s ∧ ∃ c, s = c :: r ∧ accepts c = true := by
  rw [marks_dropOne h]
  constructor
  · rintro (⟨hfalse, _⟩ | ⟨c, hc, hmarks⟩)
    · cases hfalse
    · exact ⟨c :: r, hmarks, c, rfl, hc⟩
  · rintro ⟨s, hmarks, c, rfl, hc⟩
    exact .inr ⟨c, hc, hmarks⟩

theorem marks_after (h : es.Fit t) (k : Token) :
    (es.after literalSlash t k).Marks t r ↔ ∃ s, es.Marks t s ∧ k.Takes literalSlash s r := by
  cases k with
  | anySequence =>
    simp only [after, marks_dropRun h, Token.Takes, Bool.false_eq_true, false_and, false_or]
  | anyRecursive =>
    have hcomponents := marks_dropComponents (r := r) literalSlash h
      fun hfalse : false = true => hfalse
    simpa [after] using hcomponents
  | char | anyChar | within | outside => exact marks_dropOne_false h

theorem fit_dropOne (h : es.Fit t) : (es.dropOne accepts here t).Fit t := by
  unfold Fit at *
  fun_induction dropOne accepts here es t <;> simp_all

theorem fit_dropRun (h : es.Fit t) : (es.dropRun stops here t).Fit t := by
  unfold Fit at *
  fun_induction dropRun stops here es t <;> simp_all

theorem fit_dropComponents (h : es.Fit t) : (es.dropComponents marked here t).Fit t := by
  unfold Fit at *
  fun_induction dropComponents marked here es t <;> simp_all

theorem fit_after (h : es.Fit t) (k : Token) : (es.after literalSlash t k).Fit t := by
  cases k with
  | anySequence => exact fit_dropRun h
  | anyRecursive => exact fit_dropComponents h
  | char | anyChar | within | outside => exact fit_dropOne h

theorem marks_foldl_after (literalSlash : Bool) (ks : List Token) (h : es.Fit t) :
    (ks.foldl (after literalSlash t) es).Fit t ∧
      ((ks.foldl (after literalSlash t) es).Marks t r ↔
        ∃ s, es.Marks t s ∧ Leaves literalSlash ks s r) := by
  induction ks generalizing es with
  | nil =>
    refine ⟨h, ?_⟩
    simp [Leaves]
  | cons k ks ih =>
    obtain ⟨hfit, hmarks⟩ := ih (fit_after h k)
    refine ⟨hfit, ?_⟩
    rw [List.foldl_cons, hmarks]
    simp only [marks_after h, Leaves]
    constructor
    · rintro ⟨m, ⟨s, hs, hm⟩, hr⟩
      exact ⟨s, hs, m, hm, hr⟩
    · rintro ⟨s, hs, m, hm, hr⟩
      exact ⟨m, ⟨s, hs, hm⟩, hr⟩

theorem fit_whole (t : Text) : (whole t).Fit t := by
  simp [whole, Fit]

theorem marks_whole : (whole t).Marks t r ↔ r = t := by
  have hnone : ∀ cs : Text, ¬ Marks (false :: cs.map fun _ => false) cs r := by
    intro cs
    induction cs with
    | nil => simp [Marks]
    | cons c cs ih => simpa [Marks] using ih
  cases t with
  | nil => simp [whole, Marks]
  | cons c cs => exact ⟨fun h => (h.resolve_right (hnone cs)).2, fun h => .inl ⟨rfl, h⟩⟩

theorem getLast?_eq_true_iff (h : es.Fit t) : es.getLast? = some true ↔ es.Marks t [] := by
  induction t generalizing es with
  | nil =>
    obtain ⟨e, rfl⟩ := List.length_eq_one_iff.1 h
    simp [Marks]
  | cons c cs ih =>
    cases es with
    | nil => cases h
    | cons e es =>
      have hfit : Fit es cs := Nat.succ.inj h
      have hne : es ≠ [] := by
        rintro rfl
        cases hfit
      rw [List.getLast?_cons_of_ne_nil hne, ih hfit]
      simp [Marks]

end Ends

theorem matchTokens_iff : matchTokens literalSlash ks t = true ↔ Leaves literalSlash ks t [] := by
  obtain ⟨hfit, hmarks⟩ :=
    Ends.marks_foldl_after (r := []) literalSlash ks (Ends.fit_whole t)
  rw [matchTokens, decide_eq_true_iff, Ends.getLast?_eq_true_iff hfit, hmarks]
  simp [Ends.marks_whole]

end Literate.Glob
