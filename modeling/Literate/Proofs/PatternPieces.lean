import Literate.Proofs.Matching
import Mathlib.Data.List.Forall2
import Mathlib.Data.List.TakeWhile

/-!
# Patterns piece by piece

A pattern can be read as a whole or piece by piece between its separators. If the pieces match names
one by one, where `**` stands for any number of names, then the whole pattern matches the names with
separators between them.
-/

namespace Literate.Glob
variable {s t x : Text} {ks ts done : List Token} {pos : Nat} {before : Option Char} {p : Pattern}

/-- The text is a pattern without `**`, and these are its tokens. -/
inductive Spells : Text → List Token → Prop where
  | nil : Spells [] []
  | anyChar {cs : Text} {ks : List Token} (h : Spells cs ks) : Spells ('?' :: cs) (.anyChar :: ks)
  | anySequence {cs : Text} {ks : List Token} (hnext : cs.head? ≠ some '*') (h : Spells cs ks) :
      Spells ('*' :: cs) (.anySequence :: ks)
  | outside {cs set rest : Text} {ks : List Token} (hset : bracket? cs = some (set, rest))
      (h : Spells rest ks) : Spells ('[' :: '!' :: cs) (.outside (charSet set) :: ks)
  | within {cs set rest : Text} {ks : List Token} (hnext : cs.head? ≠ some '!')
      (hset : bracket? cs = some (set, rest)) (h : Spells rest ks) :
      Spells ('[' :: cs) (.within (charSet set) :: ks)
  | char {c : Char} {cs : Text} {ks : List Token} (hc : c ≠ '?' ∧ c ≠ '*' ∧ c ≠ '[')
      (h : Spells cs ks) : Spells (c :: cs) (.char c :: ks)

theorem bracket?_eq_some_iff {set rest : Text} :
    bracket? s = some (set, rest) ↔
      s = set ++ ']' :: rest ∧ ∃ c cs, set = c :: cs ∧ ']' ∉ cs := by
  cases s with
  | nil => simp [bracket?]
  | cons c cs =>
    constructor
    · intro h
      have hcut := List.takeWhile_append_dropWhile (p := fun x : Char => decide (x ≠ ']')) (l := cs)
      rw [bracket?] at h
      split at h
      · cases h
      · rename_i d r hdrop
        obtain ⟨rfl, rfl⟩ := Prod.mk.inj (Option.some.inj h)
        have hd : d = ']' := by
          have hhead := List.head?_dropWhile_not (fun x : Char => decide (x ≠ ']')) cs
          rw [hdrop] at hhead
          simpa using hhead
        rw [hdrop, hd] at hcut
        refine ⟨?_, c, _, rfl, ?_⟩
        · rw [List.cons_append, hcut]
        · intro hmem
          have := List.mem_takeWhile_imp hmem
          simp at this
    · rintro ⟨hs, c', cs', rfl, hset⟩
      rw [List.cons_append] at hs
      obtain ⟨rfl, hcs⟩ := List.cons.inj hs
      have hall : ∀ x ∈ cs', decide (x ≠ ']') = true := by
        intro x hx
        simp only [decide_eq_true_eq]
        rintro rfl
        exact hset hx
      rw [bracket?, hcs, List.dropWhile_append_of_pos hall, List.takeWhile_append_of_pos hall]
      simp

/-- Only at the start of a piece `**` is no mistake. -/
theorem spells_of_readTokens (h : readTokens pos before done s = .ok ts) (hs : '/' ∉ s)
    (hstart : (before = none ∨ before = some '/') → ¬ ['*', '*'] <+: s) :
    ∃ ks, Spells s ks ∧ ts = done.reverse ++ ks := by
  fun_induction readTokens pos before done s with
  | case1 pos before done =>
    cases h
    exact ⟨[], .nil, (List.append_nil _).symm⟩
  | case2 pos before done cs ih =>
    obtain ⟨ks, hks, rfl⟩ := ih h (fun hmem => hs (List.mem_cons_of_mem _ hmem)) (by simp)
    exact ⟨_, .anyChar hks, by simp⟩
  | case3 => cases h
  | case4 pos before done hbefore => exact absurd (List.prefix_refl _) (hstart hbefore)
  | case5 => exact absurd (by simp) hs
  | case6 => cases h
  | case7 => cases h
  | case8 pos before done cs _ hnext ih =>
    obtain ⟨ks, hks, rfl⟩ := ih h (fun hmem => hs (List.mem_cons_of_mem _ hmem)) (by simp)
    refine ⟨_, .anySequence ?_ hks, by simp⟩
    intro hhead
    obtain ⟨tail, htail⟩ := List.head?_eq_some_iff.1 hhead
    exact hnext tail htail
  | case9 pos before done cs set rest hset _ ih =>
    have hrest : '/' ∉ rest := by
      intro hmem
      apply hs
      rw [(bracket?_eq_some_iff.1 hset).1]
      simp [hmem]
    obtain ⟨ks, hks, rfl⟩ := ih h hrest (by simp)
    exact ⟨_, .outside hset hks, by simp⟩
  | case10 => cases h
  | case11 pos before done cs hnext set rest hset _ ih =>
    have hrest : '/' ∉ rest := by
      intro hmem
      apply hs
      rw [(bracket?_eq_some_iff.1 hset).1]
      simp [hmem]
    obtain ⟨ks, hks, rfl⟩ := ih h hrest (by simp)
    refine ⟨_, .within ?_ hset hks, by simp⟩
    intro hhead
    obtain ⟨tail, htail⟩ := List.head?_eq_some_iff.1 hhead
    exact hnext tail htail
  | case12 => cases h
  | case13 pos before done c cs hquestion _ _ hstar _ hbracket ih =>
    have hslash : c ≠ '/' := by
      rintro rfl
      exact hs List.mem_cons_self
    obtain ⟨ks, hks, rfl⟩ := ih h (fun hmem => hs (List.mem_cons_of_mem _ hmem)) (by simp [hslash])
    exact ⟨_, .char ⟨hquestion, hstar, hbracket⟩ hks, by simp⟩

theorem bracket?_append {set rest : Text} (h : bracket? s = some (set, rest)) (x : Text) :
    bracket? (s ++ x) = some (set, rest ++ x) := by
  obtain ⟨hs, hset⟩ := bracket?_eq_some_iff.1 h
  exact bracket?_eq_some_iff.2 ⟨by rw [hs, List.append_assoc]; rfl, hset⟩

theorem readTokens_char {c : Char} (hc : c ≠ '?' ∧ c ≠ '*' ∧ c ≠ '[') (cs : Text) :
    readTokens pos before done (c :: cs) =
      readTokens (pos + 1) (some c) (.char c :: done) cs := by
  obtain ⟨hquestion, hstar, hbracket⟩ := hc
  rw [readTokens]
  · exact hquestion
  · exact fun _ h _ => hstar h
  · exact fun _ h _ => hstar h
  · exact hstar
  · exact fun _ h _ => hbracket h
  · exact hbracket

/-- What has been read in front of it does not change how a piece is read. -/
theorem readTokens_append (h : Spells s ks) (hx : x.head? ≠ some '*') (pos : Nat)
    (before : Option Char) (done : List Token) :
    ∃ pos' before', readTokens pos before done (s ++ x) =
      readTokens pos' before' (ks.reverse ++ done) x := by
  induction h generalizing pos before done with
  | nil => exact ⟨pos, before, rfl⟩
  | anyChar h ih =>
    obtain ⟨pos', before', hread⟩ := ih (pos + 1) (some '?') (.anyChar :: done)
    refine ⟨pos', before', ?_⟩
    rw [List.cons_append, readTokens, hread]
    simp
  | @anySequence cs ks hnext h ih =>
    obtain ⟨pos', before', hread⟩ := ih (pos + 1) (some '*') (.anySequence :: done)
    refine ⟨pos', before', ?_⟩
    have hhead : ∀ tail, cs ++ x = '*' :: tail → False := by
      intro tail htail
      cases cs with
      | nil => exact hx (by rw [List.nil_append] at htail; rw [htail]; rfl)
      | cons c cs => exact hnext (by rw [(List.cons.inj htail).1]; rfl)
    rw [List.cons_append, readTokens, hread]
    · simp
    · exact fun tail => hhead _
    · exact hhead
  | @outside cs set rest ks hset h ih =>
    obtain ⟨pos', before', hread⟩ :=
      ih (pos + set.length + 3) (some ']') (.outside (charSet set) :: done)
    refine ⟨pos', before', ?_⟩
    have hset' := bracket?_append hset x
    rw [List.cons_append, List.cons_append, readTokens]
    split
    · rename_i set' rest' hsome
      rw [hset'] at hsome
      cases hsome
      rw [hread]
      simp
    · rename_i hnone
      rw [hset'] at hnone
      cases hnone
  | @within cs set rest ks hnext hset h ih =>
    obtain ⟨pos', before', hread⟩ :=
      ih (pos + set.length + 2) (some ']') (.within (charSet set) :: done)
    refine ⟨pos', before', ?_⟩
    have hset' := bracket?_append hset x
    have hhead : ∀ tail, cs ++ x = '!' :: tail → False := by
      intro tail htail
      cases cs with
      | nil => cases hset
      | cons c cs =>
        apply hnext
        rw [(List.cons.inj htail).1]
        rfl
    rw [List.cons_append, readTokens]
    · split
      · rename_i set' rest' hsome
        rw [hset'] at hsome
        cases hsome
        rw [hread]
        simp
      · rename_i hnone
        rw [hset'] at hnone
        cases hnone
    · exact hhead
  | @char c cs ks hc h ih =>
    obtain ⟨pos', before', hread⟩ := ih (pos + 1) (some c) (.char c :: done)
    refine ⟨pos', before', ?_⟩
    rw [List.cons_append, readTokens_char hc, hread]
    simp

theorem readTokens_of_spells (h : Spells s ks) :
    readTokens pos before done s = .ok (done.reverse ++ ks) := by
  obtain ⟨pos', before', hread⟩ := readTokens_append h (x := []) (by simp) pos before done
  rw [List.append_nil] at hread
  rw [hread, readTokens, List.reverse_append, List.reverse_reverse]

theorem exists_readTokens_slash (h : Spells s ks) (pos : Nat) (before : Option Char)
    (done : List Token) (t : Text) :
    ∃ pos', readTokens pos before done (s ++ '/' :: t) =
      readTokens pos' (some '/') (.char '/' :: (ks.reverse ++ done)) t := by
  obtain ⟨pos', before', hread⟩ := readTokens_append h (x := '/' :: t) (by simp) pos before done
  exact ⟨pos' + 1, by rw [hread, readTokens_char (by decide)]⟩

namespace Spells

theorem not_mem (h : Spells s ks) : .anyRecursive ∉ ks := by
  induction h <;> simp_all

theorem read (h : Spells s ks) : Pattern.read s = .ok ⟨s, ks⟩ := by
  rw [Pattern.read, readTokens_of_spells h]
  rfl

theorem literal (h : ∀ c ∈ s, c ≠ '?' ∧ c ≠ '*' ∧ c ≠ '[') : Spells s (s.map .char) := by
  induction s with
  | nil => exact .nil
  | cons c s ih =>
    obtain ⟨hc, hs⟩ := List.forall_mem_cons.1 h
    exact .char hc (ih hs)

theorem eq_of_map_char (h : Spells s (t.map .char)) : s = t := by
  generalize hks : t.map Token.char = ks at h
  induction h generalizing t with
  | nil => exact (List.map_eq_nil_iff.1 hks).symm
  | char hc h ih =>
    obtain ⟨c', t', rfl, hc', ht'⟩ := List.map_eq_cons_iff.1 hks
    rw [ih ht', Token.char.inj hc']
  | anyChar | anySequence | outside | within =>
    obtain ⟨c', t', rfl, hc', ht'⟩ := List.map_eq_cons_iff.1 hks
    cases hc'

/-- Only `*` matches the empty text. -/
theorem eq_of_leaves_nil (h : Spells s ks) (hks : Leaves false ks [] []) : s = [] ∨ s = ['*'] := by
  induction h with
  | nil => exact .inl rfl
  | anySequence hnext h ih =>
    obtain ⟨m, ⟨u, hu, _⟩, hks⟩ := hks
    obtain ⟨rfl, rfl⟩ := List.append_eq_nil_iff.1 hu.symm
    rcases ih hks with rfl | rfl
    · exact .inr rfl
    · exact absurd rfl hnext
  | anyChar | outside | within | char =>
    obtain ⟨m, ⟨c, hc, _⟩, _⟩ := hks
    cases hc

/-- The patterns that start with a dot and match the dot alone. -/
theorem eq_of_leaves_dot (h : Spells s ks) (hhead : ks.head? = some (.char '.'))
    (hks : Leaves false ks ['.'] []) : s = ['.'] ∨ s = ['.', '*'] := by
  cases h with
  | char hc h =>
    obtain rfl := Token.char.inj (Option.some.inj hhead)
    obtain ⟨m, ⟨d, hd, _⟩, hks⟩ := hks
    obtain ⟨_, rfl⟩ := List.cons.inj hd
    rcases h.eq_of_leaves_nil hks with rfl | rfl
    · exact .inl rfl
    · exact .inr rfl
  | nil | anyChar | anySequence | outside | within => cases hhead

end Spells

theorem exists_of_read (h : Pattern.read s = .ok p) :
    ∃ ts, readTokens 0 none [] s = .ok ts ∧ ⟨s, ts⟩ = p := by
  cases hread : readTokens 0 none [] s with
  | error e => simp [Pattern.read, hread, Except.map] at h
  | ok ts => exact ⟨ts, rfl, by simpa [Pattern.read, hread, Except.map] using h⟩

theorem Spells.isRecursive (h : Spells s p.tokens) : p.isRecursive = false := by
  have hnot := h.not_mem
  simpa [Pattern.isRecursive] using hnot

/-- A piece is `**` or a pattern without it. -/
theorem piece_of_read (h : Pattern.read s = .ok p) (hs : '/' ∉ s) :
    s = ['*', '*'] ∧ p.tokens = [.anyRecursive] ∨ Spells s p.tokens := by
  obtain ⟨ts, hts, rfl⟩ := exists_of_read h
  by_cases hstars : ['*', '*'] <+: s
  · left
    obtain ⟨cs, rfl⟩ := hstars
    rw [List.cons_append, List.cons_append, List.nil_append] at hts hs ⊢
    cases cs with
    | nil =>
      rw [readTokens, if_pos (.inl rfl)] at hts
      cases hts
      exact ⟨rfl, rfl⟩
    | cons c cs =>
      by_cases hstar : c = '*'
      · subst hstar
        rw [readTokens] at hts
        cases hts
      · have hslash : c ≠ '/' := by
          rintro rfl
          simp at hs
        rw [readTokens, if_pos (.inl rfl)] at hts
        · cases hts
        · exact fun tail h => hstar (List.cons.inj h).1
        · exact List.cons_ne_nil c cs
        · exact fun tail h => hslash (List.cons.inj h).1
  · right
    obtain ⟨ks, hks, hts'⟩ := spells_of_readTokens hts hs (fun _ => hstars)
    rw [hts']
    exact hks

/-- The patterns match the names one by one; `**` stands for any number of names. -/
inductive Fits : List Pattern → List Text → Prop where
  | nil : Fits [] []
  | name {p : Pattern} {ps : List Pattern} {n : Text} {ns : List Text}
      (hp : p.isRecursive = false) (hn : p.matchesText n = true) (h : Fits ps ns) :
      Fits (p :: ps) (n :: ns)
  | into {p r : Pattern} {ps : List Pattern} {ns : List Text} (dirs : List Text)
      (hp : p.isRecursive = true) (h : Fits (r :: ps) ns) : Fits (p :: r :: ps) (dirs ++ ns)

theorem Fits.ne_nil {ps : List Pattern} {ns : List Text} (h : Fits ps ns) (hps : ps ≠ []) :
    ns ≠ [] := by
  induction h with
  | nil => exact absurd rfl hps
  | name hp hn h ih => simp
  | into dirs hp h ih => simp [ih]

theorem leaves_pushRecursive {r : Text} (h : Leaves false done.reverse t s)
    (htakes : Token.anyRecursive.Takes false s r) :
    Leaves false (pushRecursive done).reverse t r := by
  unfold pushRecursive
  split
  · rename_i hdone
    obtain ⟨done, rfl⟩ := List.head?_eq_some_iff.1 hdone.2
    rw [List.reverse_cons, leaves_append] at h ⊢
    obtain ⟨m, hm, s', htakes', rfl⟩ := h
    exact ⟨m, hm, r, takes_anyRecursive_trans htakes' htakes, rfl⟩
  · rw [List.reverse_cons, leaves_append]
    exact ⟨s, h, r, htakes, rfl⟩

theorem takes_intercalate (dirs : List Text) {ns : List Text} (hns : ns ≠ []) :
    Token.anyRecursive.Takes false (['/'].intercalate (dirs ++ ns)) (['/'].intercalate ns) := by
  induction dirs with
  | nil => exact .inl rfl
  | cons d dirs ih =>
    refine takes_anyRecursive_trans (.inr (.inr ⟨d, ?_⟩)) ih
    rw [List.cons_append, List.intercalate_cons_of_ne_nil (by simp [hns]), List.append_assoc]
    rfl

/-- The run lemma of reading a pattern: whatever has been read so far leaves the names that the
other pieces match. -/
theorem leaves_of_fits {ps : List Pattern} {ss ns : List Text} (h : Fits ps ns)
    (hread : List.Forall₂ (fun s p => Pattern.read s = .ok p) ss ps) (hss : ∀ s ∈ ss, '/' ∉ s)
    (hbefore : before = none ∨ before = some '/')
    (hts : readTokens pos before done (['/'].intercalate ss) = .ok ts)
    (hdone : Leaves false done.reverse t (['/'].intercalate ns)) : Leaves false ts t [] := by
  induction h generalizing ss pos before done with
  | nil =>
    cases hread
    rw [List.intercalate_nil, readTokens] at hts
    cases hts
    exact hdone
  | @name p ps n ns hp hn h ih =>
    obtain ⟨s, ss, hs, hrest, rfl⟩ := List.forall₂_cons_right_iff.1 hread
    obtain ⟨hslash, hpieces⟩ := List.forall_mem_cons.1 hss
    rcases piece_of_read hs hslash with ⟨_, htokens⟩ | hspells
    · simp [Pattern.isRecursive, htokens] at hp
    · have hleaves : Leaves false p.tokens n [] := matchTokens_iff.1 hn
      by_cases hps : ps = []
      · subst hps
        cases hrest
        cases h
        rw [List.intercalate_singleton] at hts hdone
        rw [readTokens_of_spells hspells] at hts
        cases hts
        exact leaves_append.2 ⟨n, hdone, hleaves⟩
      · have hne : ss ≠ [] := by
          rintro rfl
          cases hrest
          exact hps rfl
        rw [List.intercalate_cons_of_ne_nil hne, List.append_assoc] at hts
        rw [List.intercalate_cons_of_ne_nil (h.ne_nil hps), List.append_assoc] at hdone
        obtain ⟨pos', hpos'⟩ :=
          exists_readTokens_slash hspells pos before done (['/'].intercalate ss)
        refine ih hrest hpieces (.inr rfl) (hpos'.symm.trans hts) ?_
        -- The piece leaves the separator and what follows it, and the separator is taken next.
        rw [List.reverse_cons, List.reverse_append, List.reverse_reverse, leaves_append]
        have hframe := hleaves.append hspells.not_mem (['/'] ++ ['/'].intercalate ns)
        exact ⟨_, leaves_append.2 ⟨_, hdone, hframe⟩, _, ⟨'/', rfl, rfl⟩, rfl⟩
  | @into p r ps ns dirs hp h ih =>
    obtain ⟨s, ss, hs, hrest, rfl⟩ := List.forall₂_cons_right_iff.1 hread
    obtain ⟨hslash, hpieces⟩ := List.forall_mem_cons.1 hss
    rcases piece_of_read hs hslash with ⟨rfl, _⟩ | hspells
    · have hne : ss ≠ [] := by
        rintro rfl
        cases hrest
      rw [List.intercalate_cons_of_ne_nil hne] at hts
      have hts : readTokens pos before done ('*' :: '*' :: '/' :: ['/'].intercalate ss) = .ok ts :=
        hts
      rw [readTokens, if_pos hbefore] at hts
      refine ih hrest hpieces (.inr rfl) hts ?_
      exact leaves_pushRecursive hdone (takes_intercalate dirs (h.ne_nil (by simp)))
    · rw [hspells.isRecursive] at hp
      cases hp

theorem matchesText_of_fits {ps : List Pattern} {ss ns : List Text} {whole : Pattern}
    (h : Fits ps ns) (hread : List.Forall₂ (fun s p => Pattern.read s = .ok p) ss ps)
    (hss : ∀ s ∈ ss, '/' ∉ s) (hwhole : Pattern.read (['/'].intercalate ss) = .ok whole) :
    whole.matchesText (['/'].intercalate ns) = true := by
  obtain ⟨ts, hts, rfl⟩ := exists_of_read hwhole
  exact matchTokens_iff.2 (leaves_of_fits h hread hss (.inl rfl) hts rfl)

end Literate.Glob
