import Literate.Proofs.ConfigurationSearch
import Literate.Proofs.FilePaths

/-!
# The nearest configuration

The search for a configuration goes from a directory to its parent until there is none. For an
absolute path without `..` these are the directories from the one that the path spells up to the
root, each one name shorter than the one before. The file that is found is the one in the nearest of
them, and there the name without the dot comes first.
-/

namespace Literate

namespace Path
variable {p : Path} {before rest : List Span} {b : Span}

theorem pairwise_stop_spansFrom (pos : Nat) (leading : Bool) (ss : List Text) :
    (spansFrom pos leading ss).Pairwise fun a b => a.stop ≤ b.stop := by
  induction ss generalizing pos leading with
  | nil => exact .nil
  | cons s ss ih =>
    rw [spansFrom_cons]
    cases Component.ofPiece? leading s with
    | none => exact ih (pos + s.length + 1) false
    | some c =>
      refine .cons ?_ (ih (pos + s.length + 1) false)
      intro sp hsp
      have hle := le_stop_of_mem_spansFrom hsp
      change pos + s.length ≤ sp.stop
      omega

theorem pairwise_stop_spans (p : Path) : p.spans.Pairwise fun a b => a.stop ≤ b.stop := by
  rw [spans]
  split
  · refine .cons ?_ (pairwise_stop_spansFrom 1 false _)
    exact fun sp hsp => le_stop_of_mem_spansFrom hsp
  · exact pairwise_stop_spansFrom 0 true _

section Cut
variable (h : p.spans = before ++ b :: rest)
include h

theorem spans_take : spans ⟨p.text.take b.stop⟩ = before ++ [b] := by
  have hcut := congrArg (·[before.length]?) (map_spans_take p)
  have hlength : before.length + 1 < p.spans.inits.length := by simp [h]
  simp only [List.getElem?_map, List.getElem?_tail, List.getElem?_eq_getElem hlength,
    List.getElem_inits] at hcut
  rw [h, List.append_cons, List.take_left' (by simp)] at hcut
  simpa using hcut

theorem isAbsolute_take : (⟨p.text.take b.stop⟩ : Path).isAbsolute = p.isAbsolute := by
  have hstop : b.stop ≠ 0 := by
    intro hzero
    have hspans := spans_take h
    rw [hzero] at hspans
    simp [spans, spansFrom, Text.splitOn] at hspans
  simp [isAbsolute, List.head?_take, hstop]

theorem stop_le_stop {sp : Span} (hsp : sp ∈ before) : sp.stop ≤ b.stop := by
  have hpairs := pairwise_stop_spans p
  rw [h] at hpairs
  exact (List.pairwise_append.1 hpairs).2.2 sp hsp b List.mem_cons_self

end Cut

theorem ancestors_of_spans_concat (h : p.spans = before ++ [b]) :
    p.ancestors = p :: (before.reverse.map Span.stop ++ if p.isAbsolute then [] else [0]).map
      fun n => ⟨p.text.take n⟩ := by
  simp [ancestors, h]

/-- A path that is cut after one of its components has the same paths above it. -/
theorem ancestors_take (h : p.spans = before ++ b :: rest) :
    ancestors ⟨p.text.take b.stop⟩ = ⟨p.text.take b.stop⟩ ::
      (before.reverse.map Span.stop ++ if p.isAbsolute then [] else [0]).map
        fun n => ⟨p.text.take n⟩ := by
  rw [ancestors_of_spans_concat (spans_take h), isAbsolute_take h]
  congr 1
  apply List.map_congr_left
  intro n hn
  have hle : n ≤ b.stop := by
    rcases List.mem_append.1 hn with hn | hn
    · obtain ⟨sp, hsp, rfl⟩ := List.mem_map.1 hn
      exact stop_le_stop h (List.mem_reverse.1 hsp)
    · split at hn
      · cases hn
      · rw [List.mem_singleton.1 hn]
        exact Nat.zero_le _
  rw [List.take_take, Nat.min_eq_left hle]

/-- Above a path come its parent and what is above that. -/
theorem ancestors_eq_cons (p : Path) :
    p.ancestors = p :: (p.parent?.map ancestors).getD [] := by
  rcases List.eq_nil_or_concat p.spans with hspans | ⟨before, last, hspans⟩
  · simp [parent?, ancestors, hspans]
  rw [List.concat_eq_append] at hspans
  have hancestors := ancestors_of_spans_concat hspans
  rcases List.eq_nil_or_concat before with rfl | ⟨before, b, rfl⟩
  · -- above a single component there is nothing, or the empty path
    cases habs : p.isAbsolute with
    | true => simp [parent?, hancestors, habs]
    | false =>
      have hparent : p.parent? = some ⟨[]⟩ := by simp [parent?, hancestors, habs]
      rw [hparent, hancestors, habs]
      rfl
  · rw [List.concat_eq_append] at hspans hancestors
    have hparent : p.parent? = some ⟨p.text.take b.stop⟩ := by simp [parent?, hancestors]
    rw [List.append_assoc] at hspans
    rw [hparent, Option.map_some, Option.getD_some, ancestors_take hspans, hancestors,
      List.reverse_append]
    rfl

/-- The path after `k` steps to the parent. -/
def up? : Nat → Path → Option Path
  | 0, p => some p
  | k + 1, p => p.parent?.bind (up? k)

theorem getElem?_ancestors (k : Nat) (p : Path) : p.ancestors[k]? = up? k p := by
  induction k generalizing p with
  | zero =>
    rw [ancestors_eq_cons]
    rfl
  | succ k ih =>
    rw [ancestors_eq_cons, List.getElem?_cons_succ, up?]
    cases p.parent? with
    | none => rfl
    | some q => exact ih q

/-- Each step up takes one name off, until only the root is left. -/
theorem map_components_up? {names : Place} (h : p.components = .root :: names.map .normal)
    (k : Nat) :
    (up? k p).map components =
      if k ≤ names.length then some (.root :: (names.take (names.length - k)).map .normal)
      else none := by
  have hcomponents := map_components_ancestors p
  rw [if_pos (isAbsolute_of_components h).1, h, List.inits_cons, List.tail_cons, List.map_inits,
    List.map_map] at hcomponents
  rw [← getElem?_ancestors, ← List.getElem?_map, hcomponents]
  split
  · rename_i hk
    have hlength : names.length - k < names.inits.length := by
      rw [List.length_inits]
      omega
    rw [List.getElem?_reverse (by simp; omega), List.getElem?_map, List.length_map,
      List.length_inits, Nat.add_sub_cancel, List.getElem?_eq_getElem hlength, List.getElem_inits]
    rfl
  · rename_i hk
    apply List.getElem?_eq_none
    rw [List.length_reverse, List.length_map, List.length_inits]
    omega

/-- Only the names of a path can have a NUL in them. -/
theorem no_nul_of_steps (h : ∀ n, .normal n ∈ p.steps → n.any (·.toNat = 0) = false) :
    p.text.any (·.toNat = 0) = false := by
  rw [List.any_eq_false]
  intro c hc
  by_cases hslash : c = '/'
  · subst hslash
    decide
  obtain ⟨s, hs, hcs⟩ := Text.exists_mem_splitOn hc hslash
  rcases piece_cases s with rfl | rfl | rfl | hproper
  · cases hcs
  · rw [List.mem_singleton.1 hcs]
    decide
  · have hdot : c = '.' := by simpa using hcs
    rw [hdot]
    decide
  · exact List.any_eq_false.1 (h s (normal_mem_ofPieces hproper hs false)) c hcs

end Path

namespace FileTree
variable {t : FileTree} {cwd place : Place} {q : Path} {name : Text}

theorem has_iff {p : Path} : t.has cwd p = true ↔ ∃ node, t.node? cwd p = .ok node := by
  rw [has]
  cases t.node? cwd p <;> simp

theorem exists_walk_of_has {p : Path} (h : t.has cwd p = true) :
    refuse? p = none ∧ ∃ place, t.walk (startPlace cwd p) p.pieces = .ok place := by
  obtain ⟨node, hnode⟩ := has_iff.1 h
  rw [node?] at hnode
  split at hnode
  · cases hnode
  · rename_i place hlocate
    rw [locate] at hlocate
    split at hlocate
    · cases hlocate
    · rename_i hrefuse
      exact ⟨hrefuse, place, hlocate⟩

theorem refuse?_join_iff (hname : IsName name) (habs : q.isAbsolute = true) :
    refuse? (q.join ⟨name⟩) = none ↔
      q.text.any (·.toNat = 0) = false ∧ Text.byteLength (q.join ⟨name⟩).text ≤ pathLimit := by
  obtain ⟨cs, hcs⟩ := Path.exists_text_of_isAbsolute habs
  have htext := Path.text_join (Path.isAbsolute_of_not_mem hname.no_slash)
    (show q.text ≠ [] by simp [hcs])
  have hnul : (q.join ⟨name⟩).text.any (·.toNat = 0) = q.text.any (·.toNat = 0) := by
    rw [htext, List.any_append, List.any_cons, hname.no_nul]
    rcases Text.eq_dropEnd_or_concat '/' q.text with hd | hd
    · rw [← hd]
      simp
    · conv_rhs => rw [hd, List.any_append]
      simp
  rw [refuse?_eq_none_iff, hnul]
  have hne : (q.join ⟨name⟩).text ≠ [] := by simp [htext]
  exact ⟨fun h => ⟨h.1, h.2.2⟩, fun h => ⟨h.1, hne, h.2⟩⟩

/-- The directory holds an entry of this name, and it can be entered. -/
def Holds (t : FileTree) (place : Place) (name : Text) : Prop :=
  t.IsEntered place ∧ (t.get? (place ++ [name])).isSome

/-- An entry of a directory exists under its path exactly if the directory holds it and the path is
not too long. -/
theorem has_join_iff (hname : IsName name) (hq : q.components = .root :: place.map .normal) :
    t.has cwd (q.join ⟨name⟩) = true ↔
      t.Holds place name ∧ Text.byteLength (q.join ⟨name⟩).text ≤ pathLimit := by
  obtain ⟨habs, hq⟩ := Path.isAbsolute_of_components hq
  have hstart : startPlace cwd q = [] := by rw [startPlace, if_pos habs]
  have hdestination : destination cwd q = place := by
    rw [destination, hstart, hq, foldl_follow_map_normal, List.nil_append]
  constructor
  · intro h
    obtain ⟨hrefuse, place', hwalk⟩ := exists_walk_of_has h
    obtain ⟨hnul, hlength⟩ := (refuse?_join_iff hname habs).1 hrefuse
    obtain ⟨ss, hpieces, hss⟩ := Path.exists_pieces_join_name hname.no_slash q
    rw [hpieces, startPlace, if_pos (Path.isAbsolute_join_name hname.no_slash q ▸ habs)] at hwalk
    obtain ⟨mid, hmid, hlast⟩ := exists_walk_of_append hwalk
    -- the walk passes the directory before it comes to the entry
    have hpasses := passes_of_walk hmid (directory_of_walk_cons hlast)
    have hplace : mid = place := by
      have hfollow := walk_of_passes hpasses
      rw [hmid, hss, hq, foldl_follow_map_normal] at hfollow
      exact Except.ok.inj hfollow
    rw [hss] at hpasses
    have hentered := (isEntered_nil t).foldl_follow hpasses fun n hn => hpasses.isName hnul hn
    rw [hq, foldl_follow_map_normal, List.nil_append] at hentered
    rw [hplace] at hlast
    exact ⟨⟨hentered, (fits_of_walk_cons hname.proper hlast).2⟩, hlength⟩
  · rintro ⟨⟨hentered, hsome⟩, hlength⟩
    have hnul : q.text.any (·.toNat = 0) = false := by
      apply Path.no_nul_of_steps
      intro n hn
      rw [hq] at hn
      exact (hentered.names n (by simpa using hn)).no_nul
    have hrefuse := (refuse?_join_iff hname habs).2 ⟨hnul, hlength⟩
    have hpasses : t.Passes (startPlace cwd q) q.steps := by
      rw [hstart, hq]
      exact hentered.passes
    have hnode := node?_join hname hpasses hrefuse
    obtain ⟨node, hget⟩ := Option.isSome_iff_exists.1 hsome
    rw [hdestination, hget] at hnode
    exact has_iff.2 ⟨node, hnode⟩

end FileTree

namespace Settings
variable {t : FileTree} {cwd : Place} {p q dir : Path}

/-- The configuration file of the directory: the one without a dot or, if this does not exist, the
one with a dot. -/
inductive IsConfigOf (t : FileTree) (cwd : Place) (dir : Path) : Path → Prop where
  | plain (exists_plain : t.has cwd (dir.join ⟨"mdtangle.toml".toList⟩) = true) :
      IsConfigOf t cwd dir (dir.join ⟨"mdtangle.toml".toList⟩)
  | dotted (no_plain : t.has cwd (dir.join ⟨"mdtangle.toml".toList⟩) = false)
      (exists_dotted : t.has cwd (dir.join ⟨".mdtangle.toml".toList⟩) = true) :
      IsConfigOf t cwd dir (dir.join ⟨".mdtangle.toml".toList⟩)

theorem fileIn?_eq_none_iff :
    fileIn? t cwd q = none ↔ ∀ name ∈ fileNames, t.has cwd (q.join ⟨name⟩) = false := by
  rw [fileIn?, List.find?_eq_none, List.forall_mem_map]
  simp only [Bool.not_eq_true]

theorem fileIn?_eq_some_iff : fileIn? t cwd q = some p ↔ IsConfigOf t cwd q p := by
  constructor
  · intro h
    cases hplain : t.has cwd (q.join ⟨"mdtangle.toml".toList⟩) with
    | true =>
      simp only [fileIn?, fileNames, List.map_cons, List.find?_cons, hplain] at h
      cases h
      exact .plain hplain
    | false =>
      cases hdotted : t.has cwd (q.join ⟨".mdtangle.toml".toList⟩) with
      | true =>
        simp only [fileIn?, fileNames, List.map_cons, List.find?_cons, hplain, hdotted] at h
        cases h
        exact .dotted hplain hdotted
      | false =>
        simp only [fileIn?, fileNames, List.map_cons, List.map_nil, List.find?_cons, hplain,
          hdotted, List.find?_nil] at h
        cases h
  · rintro (hplain | ⟨hplain, hdotted⟩)
    · simp only [fileIn?, fileNames, List.map_cons, List.find?_cons, hplain]
    · simp only [fileIn?, fileNames, List.map_cons, List.find?_cons, hplain, hdotted]

/-- The search is the loop that looks into a directory and goes on with its parent. -/
theorem findFile?_eq_or (t : FileTree) (cwd : Place) (dir : Path) :
    findFile? t cwd dir = (fileIn? t cwd dir).or (dir.parent?.bind (findFile? t cwd)) := by
  rw [findFile?, Path.ancestors_eq_cons, List.findSome?_cons]
  cases fileIn? t cwd dir with
  | some p => rfl
  | none =>
    cases dir.parent? with
    | none => rfl
    | some q => rfl

theorem findFile?_eq_none_iff :
    findFile? t cwd dir = none ↔
      ∀ k q, Path.up? k dir = some q → fileIn? t cwd q = none := by
  rw [findFile?, List.findSome?_eq_none_iff]
  constructor
  · intro h k q hq
    rw [← Path.getElem?_ancestors] at hq
    exact h q (List.mem_of_getElem? hq)
  · intro h q hq
    obtain ⟨k, hk⟩ := List.getElem?_of_mem hq
    exact h k q (Path.getElem?_ancestors k dir ▸ hk)

theorem findFile?_eq_some_iff :
    findFile? t cwd dir = some p ↔
      ∃ k q, Path.up? k dir = some q ∧ fileIn? t cwd q = some p ∧
        ∀ j < k, ∀ r, Path.up? j dir = some r → fileIn? t cwd r = none := by
  simp only [← Path.getElem?_ancestors]
  rw [findFile?, List.findSome?_eq_some_iff]
  constructor
  · rintro ⟨nearer, q, farther, hancestors, hq, hnone⟩
    refine ⟨nearer.length, q, by simp [hancestors], hq, ?_⟩
    intro j hj r hr
    rw [hancestors, List.getElem?_append_left hj] at hr
    exact hnone r (List.mem_of_getElem? hr)
  · rintro ⟨k, q, hk, hq, hnone⟩
    obtain ⟨hlt, rfl⟩ := List.getElem?_eq_some_iff.1 hk
    refine ⟨dir.ancestors.take k, _, dir.ancestors.drop (k + 1), ?_, hq, ?_⟩
    · rw [← List.drop_eq_getElem_cons hlt, List.take_append_drop]
    · intro r hr
      obtain ⟨j, hj⟩ := List.getElem?_of_mem hr
      rw [List.getElem?_take] at hj
      split at hj
      · rename_i hjk
        exact hnone j hjk r hj
      · cases hj

/-- The search for a configuration from an absolute path without `..`. It is the loop that looks into
a directory and goes on with its parent; every step up takes one name off, so that after the root
there is nothing to look into. The file that is found is that of the nearest directory in which one
of the two names exists, and nothing is found exactly if neither exists in any of them. A name exists
there if the directory holds such an entry, and the path to it is one that the system takes. -/
theorem findFile?_nearest (t : FileTree) (cwd : Place) (hdir : dir.IsDirect) :
    ∃ names : Place, dir.components = .root :: names.map .normal ∧
      findFile? t cwd dir = (fileIn? t cwd dir).or (dir.parent?.bind (findFile? t cwd)) ∧
      (∀ k, (Path.up? k dir).map Path.components =
        if k ≤ names.length then some (.root :: (names.take (names.length - k)).map .normal)
        else none) ∧
      (∀ p, findFile? t cwd dir = some p ↔
        ∃ k q, Path.up? k dir = some q ∧ IsConfigOf t cwd q p ∧
          ∀ j < k, ∀ r, Path.up? j dir = some r →
            ∀ name ∈ fileNames, t.has cwd (r.join ⟨name⟩) = false) ∧
      (findFile? t cwd dir = none ↔
        ∀ k q, Path.up? k dir = some q →
          ∀ name ∈ fileNames, t.has cwd (q.join ⟨name⟩) = false) ∧
      ∀ k q, Path.up? k dir = some q → ∀ name ∈ fileNames,
        (t.has cwd (q.join ⟨name⟩) = true ↔
          t.Holds (names.take (names.length - k)) name ∧
            Text.byteLength (q.join ⟨name⟩).text ≤ FileTree.pathLimit) := by
  obtain ⟨names, hnames, _⟩ := FileTree.exists_names_of_isDirect hdir
  refine ⟨names, hnames, findFile?_eq_or t cwd dir, Path.map_components_up? hnames, ?_, ?_, ?_⟩
  · intro p
    rw [findFile?_eq_some_iff]
    simp only [fileIn?_eq_some_iff, fileIn?_eq_none_iff]
  · rw [findFile?_eq_none_iff]
    simp only [fileIn?_eq_none_iff]
  · intro k q hq name hname
    have hup := Path.map_components_up? hnames k
    rw [hq, Option.map_some] at hup
    split at hup
    · exact FileTree.has_join_iff (isName_of_mem_fileNames hname) (Option.some.inj hup)
    · cases hup

/-- The dotted name one directory up comes before the plain name two directories up. -/
theorem findFile?_nearest_dotted :
    let t : FileTree := ⟨[(["w".toList], .directory), (["w".toList, "a".toList], .directory),
      (["w".toList, "a".toList, "b".toList], .directory),
      (["w".toList, "mdtangle.toml".toList], .file (.text [])),
      (["w".toList, "a".toList, ".mdtangle.toml".toList], .file (.text []))]⟩
    let dir : Path := ⟨"//w//a/./b/".toList⟩
    dir.IsDirect ∧ t.has [] ⟨"/w/mdtangle.toml".toList⟩ = true ∧
      findFile? t [] dir = some ⟨"//w//a/.mdtangle.toml".toList⟩ := by
  intro t dir
  have hdir : dir.IsDirect := by decide +kernel
  obtain ⟨_, _, _, _, hfound, _, _⟩ := findFile?_nearest t [] hdir
  refine ⟨hdir, by decide +kernel, (hfound _).2 ⟨1, ⟨"//w//a".toList⟩, by decide +kernel,
    .dotted (by decide +kernel) (by decide +kernel), ?_⟩⟩
  intro j hj r hr
  obtain rfl : j = 0 := by omega
  cases hr
  exact fileIn?_eq_none_iff.1 (by decide +kernel)

end Settings

end Literate
