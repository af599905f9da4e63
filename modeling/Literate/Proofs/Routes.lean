import Literate.Proofs.Discovery
import Literate.Proofs.PatternPieces
import Literate.Proofs.TreeChanges
import Mathlib.Data.List.Chain

/-!
# The names on the way to a match

A route leads to a file through names that its components match one by one. A route through a
directory without wildcards starts with the names of the directory, so that what is matched behind
them is what the pattern itself matches.
-/

namespace Literate

namespace FileTree
variable {t : FileTree} {dir names : Place} {n : Text}

theorem exists_of_mem_descendants (h : names ∈ t.descendants dir) :
    names ≠ [] ∧ ∃ node, (dir ++ names, node) ∈ t.nodes := by
  obtain ⟨⟨place, node⟩, hmem, hbelow⟩ := List.mem_filterMap.1 h
  unfold below? at hbelow
  split at hbelow
  · rename_i hcond
    obtain ⟨rest, rfl⟩ := List.isPrefixOf_iff_prefix.1 hcond.1
    have hrest : names = rest := by
      have := Option.some.inj hbelow
      rw [List.drop_left] at this
      exact this.symm
    subst hrest
    refine ⟨?_, node, hmem⟩
    rintro rfl
    exact hcond.2 (by simp)
  · cases hbelow

theorem isSome_get?_of_mem {place : Place} {node : Node} (h : (place, node) ∈ t.nodes) :
    (t.get? place).isSome := by
  unfold get?
  split
  · rfl
  · exact find_isSome_iff.2 ⟨node, h⟩

theorem WellFormed.isName (ht : t.WellFormed) (h : (t.get? (dir ++ names)).isSome) :
    ∀ n ∈ names, IsName n := by
  induction names using List.reverseRecOn with
  | nil => simp
  | append_singleton names n ih =>
    rw [← List.append_assoc] at h
    have hdir := ht.inside h
    have hnames := ih (by rw [hdir]; rfl)
    intro m hm
    rcases List.mem_append.1 hm with hm | hm
    · exact hnames m hm
    · rw [List.mem_singleton.1 hm]
      exact ht.named h

theorem isName_of_mem_descendants (ht : t.WellFormed) (h : names ∈ t.descendants dir) :
    ∀ n ∈ names, IsName n := by
  obtain ⟨_, node, hmem⟩ := exists_of_mem_descendants h
  exact ht.isName (isSome_get?_of_mem hmem)

theorem isName_of_mem_children (ht : t.WellFormed) (h : n ∈ t.children dir) : IsName n := by
  obtain ⟨names, hnames, hn⟩ := List.mem_filterMap.1 h
  split at hn
  · cases hn
    exact isName_of_mem_descendants ht hnames n List.mem_cons_self
  · cases hn

end FileTree

namespace Glob
variable {t : FileTree} {cwd : Place} {ps qs : List Pattern} {path q : Path} {n : Text}
  {ns : List Text}

theorem fileName?_join (h : path.isAbsolute = true) (hn : FileTree.IsName n) :
    (path.join ⟨n⟩).fileName? = some n := by
  have hrel := Path.isAbsolute_of_not_mem hn.no_slash
  have hsteps : (⟨n⟩ : Path).steps = [.normal n] := by
    rw [Path.steps, Path.pieces, Path.splitOn_of_not_mem hn.no_slash]
    exact Path.ofPieces_of_isProper (List.forall_mem_singleton.2 hn.proper)
  have hlast : (path.join ⟨n⟩).components.getLast? = some (.normal n) := by
    rw [Path.components_join hrel (Path.text_ne_nil_of_isAbsolute h), hsteps,
      List.getLast?_concat]
  simp only [Path.fileName?, hlast]

namespace Pattern
variable {p : Pattern}

theorem literal?_of_map_char (source s : Text) :
    (⟨source, s.map .char⟩ : Pattern).literal? = some s := by
  unfold literal?
  induction s with
  | nil => rfl
  | cons c s ih =>
    simp only at ih ⊢
    rw [List.map_cons, List.mapM_cons, ih]
    rfl

theorem tokens_of_literal? (h : p.literal? = some n) : p.tokens = n.map .char := by
  obtain ⟨source, tokens⟩ := p
  unfold literal? at h
  induction tokens generalizing n with
  | nil =>
    cases h
    rfl
  | cons k ks ih =>
    rw [List.mapM_cons] at h
    obtain ⟨c, hc, hrest⟩ := Option.bind_eq_some_iff.1 h
    obtain ⟨cs, hcs, hn⟩ := Option.bind_eq_some_iff.1 hrest
    cases hn
    have hks : ks = cs.map .char := ih hcs
    split at hc
    · cases hc
      rw [hks]
      rfl
    · cases hc

theorem matchesText_of_literal? (h : p.literal? = some n) : p.matchesText n = true := by
  have hleaves : ∀ cs : Text, Leaves false (cs.map .char) cs [] := by
    intro cs
    induction cs with
    | nil => rfl
    | cons c cs ih => exact ⟨cs, ⟨c, rfl, by simp [Token.accepts]⟩, ih⟩
  rw [matchesText, tokens_of_literal? h]
  exact matchTokens_iff.2 (hleaves n)

theorem isRecursive_of_literal? (h : p.literal? = some n) : p.isRecursive = false := by
  simp [isRecursive, tokens_of_literal? h]

end Pattern

theorem components_foldl_entry {names : List Text} (hpath : path.isAbsolute = true)
    (hnames : ∀ n ∈ names, '/' ∉ n) :
    (names.foldl entry path).components = path.components ++ Path.ofPieces false names := by
  induction names generalizing path with
  | nil => simp [Path.ofPieces]
  | cons n names ih =>
    obtain ⟨hn, hnames⟩ := List.forall_mem_cons.1 hnames
    have hrel := Path.isAbsolute_of_not_mem hn
    rw [List.foldl_cons, ih (isAbsolute_entry hpath n) hnames, entry_of_isAbsolute hpath,
      Path.components_join hrel (Path.text_ne_nil_of_isAbsolute hpath), List.append_assoc]
    congr 1
    rw [Path.steps, Path.pieces, Path.splitOn_of_not_mem hn, Path.ofPieces, Path.ofPieces,
      Path.ofPieces, List.append_nil]

/-- A piece between separators. -/
def IsPiece (n : Text) : Prop :=
  n ≠ [] ∧ '/' ∉ n

theorem isAbsolute_intercalate (hns : ∀ n ∈ ns, IsPiece n) :
    (⟨['/'].intercalate ns⟩ : Path).isAbsolute = false := by
  cases ns with
  | nil => rfl
  | cons n ns =>
    obtain ⟨hne, hslash⟩ := hns n List.mem_cons_self
    have hhead : (['/'].intercalate (n :: ns)).head? = n.head? := by
      by_cases hlast : ns = []
      · rw [hlast, List.intercalate_singleton]
      · rw [List.intercalate_cons_of_ne_nil hlast, List.append_assoc,
          List.head?_append_of_ne_nil _ hne]
    have hrel := Path.isAbsolute_of_not_mem hslash
    rw [Path.isAbsolute] at hrel ⊢
    rw [hhead]
    exact hrel

theorem join_intercalate (hn : IsPiece n) (hns : ∀ m ∈ ns, IsPiece m) (hne : ns ≠ []) :
    (⟨n⟩ : Path).join ⟨['/'].intercalate ns⟩ = ⟨['/'].intercalate (n :: ns)⟩ := by
  have hend : Text.dropEnd '/' n = n := by
    rcases Text.eq_dropEnd_or_concat '/' n with heq | heq
    · exact heq.symm
    · exact absurd (by rw [heq]; simp) hn.2
  apply Path.ext
  rw [Path.text_join (isAbsolute_intercalate hns) hn.1, hend,
    List.intercalate_cons_of_ne_nil hne, List.append_assoc]
  rfl

/-- Names that are entered one by one make one relative path. -/
theorem foldl_entry (hpath : path.isAbsolute = true) (hns : ∀ n ∈ ns, IsPiece n) (hne : ns ≠ []) :
    ns.foldl entry path = path.join ⟨['/'].intercalate ns⟩ := by
  induction ns generalizing path with
  | nil => exact absurd rfl hne
  | cons n ns ih =>
    obtain ⟨hn, hns⟩ := List.forall_mem_cons.1 hns
    rw [List.foldl_cons, entry_of_isAbsolute hpath]
    by_cases hlast : ns = []
    · rw [hlast, List.foldl_nil, List.intercalate_singleton]
    · rw [ih (Path.isAbsolute_join_left hpath _) hns hlast, Path.join_assoc,
        join_intercalate hn hns hlast]

/-- The names lead from the first path to the second one and match the patterns. The first name is
not `.`, unless the first pattern asks for it. -/
structure Leads (ps : List Pattern) (path q : Path) (ns : List Text) : Prop where
  fits : Fits ps ns
  path_eq : q = ns.foldl entry path
  pieces : ∀ n ∈ ns, IsPiece n
  shows : (∀ p ∈ ps.head?, p.tokens.head? = some (.char '.') → p.matchesText ['.'] = false) →
    ∀ n ∈ ns.head?, n ≠ ['.']

theorem Leads.cons {p : Pattern} (h : Leads ps (entry path n) q ns) (hp : p.isRecursive = false)
    (hmatch : p.matchesText n = true) (hn : IsPiece n)
    (hdot : n = ['.'] → p.tokens.head? = some (.char '.')) : Leads (p :: ps) path q (n :: ns) where
  fits := .name hp hmatch h.fits
  path_eq := h.path_eq
  pieces := List.forall_mem_cons.2 ⟨hn, h.pieces⟩
  shows := by
    intro hshows m hm heq
    obtain rfl : n = m := Option.some.inj hm
    have hfalse := hshows p rfl (hdot heq)
    rw [← heq, hmatch] at hfalse
    cases hfalse

theorem isPiece_of_isName (h : FileTree.IsName n) : IsPiece n :=
  ⟨h.proper.1, h.no_slash⟩

theorem matchesText_of_matchesName {p : Pattern} (hpath : path.isAbsolute = true)
    (hn : FileTree.IsName n) (h : p.matchesName (entry path n) = true) :
    p.matchesText n = true := by
  rw [entry_of_isAbsolute hpath, Pattern.matchesName, fileName?_join hpath hn] at h
  exact h

/-- A file is reached by names that the patterns match one by one. -/
theorem Reaches.exists_leads (h : Reaches t cwd ps path q) (ht : t.WellFormed)
    (hpath : path.isAbsolute = true) (hfile : t.isFile cwd q = true)
    (hapart : ps.IsChain fun p r => ¬ (p.isRecursive = true ∧ r.isRecursive = true))
    (hliteral : ∀ p ∈ ps, ∀ n, p.literal? = some n → IsPiece n) : ∃ ns, Leads ps path q ns := by
  induction h with
  | here path => exact ⟨[], .nil, rfl, by simp, by simp⟩
  | @literal p ps path q name hp h ih =>
    obtain ⟨hpiece, hrest⟩ := List.forall_mem_cons.1 hliteral
    obtain ⟨ns, hns⟩ := ih (isAbsolute_entry hpath _) hfile hapart.tail hrest
    refine ⟨name :: ns, hns.cons (Pattern.isRecursive_of_literal? hp)
      (Pattern.matchesText_of_literal? hp) (hpiece name hp) ?_⟩
    rintro rfl
    rw [Pattern.tokens_of_literal? hp]
    rfl
  | @child p ps path q place name hp hrecursive hplace hname hmatch h ih =>
    obtain ⟨_, hrest⟩ := List.forall_mem_cons.1 hliteral
    obtain ⟨ns, hns⟩ := ih (isAbsolute_entry hpath _) hfile hapart.tail hrest
    have hisName := FileTree.isName_of_mem_children ht hname
    exact ⟨name :: ns, hns.cons hrecursive (matchesText_of_matchesName hpath hisName hmatch)
      (isPiece_of_isName hisName) fun hdot => absurd hdot hisName.proper.2.1⟩
  | @dot p ps path q name hp hrecursive hhead hname hmatch h ih =>
    obtain ⟨_, hrest⟩ := List.forall_mem_cons.1 hliteral
    obtain ⟨ns, hns⟩ := ih (Path.isAbsolute_join_left hpath _) hfile hapart.tail hrest
    rw [← entry_of_isAbsolute hpath] at hns
    have hpiece : IsPiece name := by
      rcases hname with rfl | rfl
      · exact ⟨by simp, by decide⟩
      · exact ⟨by simp, by decide⟩
    exact ⟨name :: ns, hns.cons hrecursive hmatch hpiece fun _ => hhead⟩
  | @under p r ps path q place names hp hrecursive hplace hnames hmatch h ih =>
    obtain ⟨_, _, hrest⟩ := List.forall_mem_cons.1 hliteral |>.imp_right List.forall_mem_cons.1
    obtain ⟨hne, _⟩ := List.isChain_cons_cons.1 hapart
    have hr : r.isRecursive = false := by simpa [hrecursive] using hne
    obtain ⟨ns, hns⟩ := ih (isAbsolute_foldl_entry hpath _) hfile hapart.tail.tail hrest
    have hisName := FileTree.isName_of_mem_descendants ht hnames
    obtain ⟨hnil, _⟩ := FileTree.exists_of_mem_descendants hnames
    obtain ⟨dirs, n, rfl⟩ := (List.eq_nil_or_concat' names).resolve_left hnil
    have hn : FileTree.IsName n := hisName n (by simp)
    rw [List.foldl_append] at hmatch
    have hmatch := matchesText_of_matchesName (isAbsolute_foldl_entry hpath dirs) hn hmatch
    refine ⟨dirs ++ n :: ns, .into dirs hrecursive (.name hr hmatch hns.fits), ?_, ?_, ?_⟩
    · rw [hns.path_eq, List.foldl_append, List.foldl_append]
      rfl
    · intro m hm
      rw [List.append_cons, List.mem_append] at hm
      exact hm.elim (fun hm => isPiece_of_isName (hisName m hm)) (hns.pieces m)
    · intro _ m hm
      have hmem : m ∈ dirs ++ [n] := by
        cases dirs with
        | nil => simpa using hm.symm
        | cons d dirs =>
          obtain rfl : d = m := Option.some.inj hm
          simp
      exact (hisName m hmem).proper.2.1
  | directory hp hdirectory =>
    unfold FileTree.isFile at hfile
    unfold FileTree.isDirectory at hdirectory
    split at hfile
    · rename_i hnode
      rw [hnode] at hdirectory
      cases hdirectory
    · cases hfile

section Collapse

theorem isChain_collapse (ps : List Pattern) :
    (collapse ps).IsChain fun p r => ¬ (p.isRecursive = true ∧ r.isRecursive = true) := by
  induction ps with
  | nil => exact .nil
  | cons p ps ih =>
    rw [collapse]
    cases hps : collapse ps with
    | nil => exact .singleton p
    | cons q qs =>
      rw [hps] at ih
      simp only
      split
      · exact ih
      · rename_i hboth
        exact List.isChain_cons_cons.2 ⟨by simpa using hboth, ih⟩

theorem mem_of_mem_collapse {p : Pattern} (h : p ∈ collapse ps) : p ∈ ps := by
  induction ps with
  | nil => exact h
  | cons r ps ih =>
    have hcons : p ∈ r :: collapse ps → p ∈ r :: ps := by
      intro h
      rcases List.mem_cons.1 h with rfl | h
      · exact List.mem_cons_self
      · exact List.mem_cons_of_mem r (ih h)
    rw [collapse] at h
    split at h
    · rename_i q qs hps
      rw [hps] at hcons
      split at h
      · exact hcons (List.mem_cons_of_mem r h)
      · exact hcons h
    · rename_i hps
      rw [hps] at hcons
      exact hcons h

theorem Fits.of_collapse (h : Fits (collapse ps) ns) : Fits ps ns := by
  induction ps generalizing ns with
  | nil => exact h
  | cons p ps ih =>
    -- It is enough to look at the first pattern, whether it has been kept or not.
    have hcons : Fits (p :: collapse ps) ns → Fits (p :: ps) ns := by
      intro hfits
      generalize hps : collapse ps = rest at hfits ih
      cases hfits with
      | name hp hn hrest => exact .name hp hn (ih hrest)
      | into dirs hp hrest =>
        cases ps with
        | nil => cases hps
        | cons r ps => exact .into dirs hp (ih hrest)
    rw [collapse] at h
    split at h
    · rename_i q qs hps
      rw [hps] at hcons
      split at h
      · rename_i hboth
        rw [hps] at ih
        cases ps with
        | nil => cases hps
        | cons r ps => exact .into [] (Bool.and_eq_true _ _ ▸ hboth).1 (ih h)
      · exact hcons h
    · rename_i hps
      rw [hps] at hcons
      exact hcons h

theorem collapse_append (hps : ∀ p ∈ ps, p.isRecursive = false) (qs : List Pattern) :
    collapse (ps ++ qs) = ps ++ collapse qs := by
  induction ps with
  | nil => rfl
  | cons p ps ih =>
    obtain ⟨hp, hps⟩ := List.forall_mem_cons.1 hps
    rw [List.cons_append, collapse, ih hps]
    cases hrest : ps ++ collapse qs with
    | nil => simp [hrest]
    | cons r rs => simp [hp, hrest]

theorem head?_collapse {p : Pattern} (h : p ∈ (collapse ps).head?) :
    p ∈ ps.head? ∨ p.isRecursive = true := by
  cases ps with
  | nil => exact .inl h
  | cons r ps =>
    rw [collapse] at h
    cases hps : collapse ps with
    | nil =>
      rw [hps] at h
      exact .inl h
    | cons q qs =>
      rw [hps] at h
      simp only at h
      split at h
      · rename_i hboth
        obtain rfl : q = p := Option.some.inj h
        exact .inr (Bool.and_eq_true _ _ ▸ hboth).2
      · exact .inl h

end Collapse

theorem Reaches.of_literal {p : Pattern} (hp : p.literal? = some n)
    (h : Reaches t cwd (p :: ps) path q) : Reaches t cwd ps (entry path n) q := by
  cases h with
  | literal hname h =>
    rw [hp] at hname
    cases hname
    exact h
  | child hnone | dot hnone | under hnone | directory hnone =>
    rw [hp] at hnone
    cases hnone

/-- Names without wildcards are followed as they are. -/
theorem Reaches.of_literals {bs : List Pattern} {names : List Text}
    (hbs : List.Forall₂ (fun b n => b.literal? = some n) bs names)
    (h : Reaches t cwd (bs ++ ps) path q) : Reaches t cwd ps (names.foldl entry path) q := by
  induction hbs generalizing path with
  | nil => exact h
  | cons hb hbs ih => exact ih (h.of_literal hb)

theorem cutComponents_of_ne {u : Text} (h : ∀ s ∈ (Text.splitOn '/' u).getLast?, s ≠ []) :
    cutComponents u = Text.splitOn '/' u := by
  unfold cutComponents
  simp only
  rw [if_neg]
  rintro ⟨hlast, _⟩
  exact h [] hlast rfl

/-- Pieces without wildcards stand for themselves. -/
theorem forall₂_literal {names : List Text} {bs : List Pattern}
    (h : List.Forall₂ (fun p s => Pattern.read s = .ok p) bs names)
    (hnames : ∀ n ∈ names, ∀ c ∈ n, c ≠ '?' ∧ c ≠ '*' ∧ c ≠ '[') :
    List.Forall₂ (fun b n => b.literal? = some n) bs names := by
  induction h with
  | nil => exact .nil
  | @cons b n bs names hn hrest ih =>
    obtain ⟨hchars, hnames⟩ := List.forall_mem_cons.1 hnames
    rw [(Spells.literal hchars).read] at hn
    cases hn
    exact .cons (Pattern.literal?_of_map_char n n) (ih hnames)

theorem isPiece_of_read {p : Pattern} {s : Text} (hread : Pattern.read s = .ok p) (hs : IsPiece s)
    (h : p.literal? = some n) : IsPiece n := by
  have htokens := Pattern.tokens_of_literal? h
  rcases piece_of_read hread hs.2 with ⟨_, hstars⟩ | hspells
  · rw [hstars] at htokens
    cases n <;> cases htokens
  · rw [htokens] at hspells
    rw [← hspells.eq_of_map_char]
    exact hs

end Glob

end Literate
