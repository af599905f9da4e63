import Literate.Proofs.TreeChanges

/-!
# Paths to files

A path leads to a file exactly when it ends in a name, passes directories up to that name, and the
file stands where its steps lead. In a well-formed tree a path that starts at the root and never
goes up needs no more than the file: the directories on the way are there if the file is.
-/

namespace Literate

namespace Path
variable {p : Path} {ss : List Text} {n : Text}

/-- The last piece of the path is a name; `ss` are the pieces before it. -/
structure EndsIn (p : Path) (ss : List Text) (n : Text) : Prop where
  pieces_eq : p.pieces = ss ++ [n]
  proper : IsProper n

theorem EndsIn.steps (h : p.EndsIn ss n) : p.steps = ofPieces false ss ++ [.normal n] := by
  have hlast : ofPieces false [n] = [.normal n] :=
    ofPieces_of_isProper (List.forall_mem_singleton.2 h.proper)
  rw [Path.steps, h.pieces_eq]
  by_cases hss : ss = []
  · subst hss
    exact hlast
  · rw [ofPieces_append false hss, hlast]

/-- The path starts at the root and never goes up. -/
def IsDirect (p : Path) : Prop :=
  p.isAbsolute = true ∧ .parent ∉ p.components

instance (p : Path) : Decidable p.IsDirect :=
  inferInstanceAs (Decidable (_ ∧ _))

end Path

namespace FileTree
variable {t u : FileTree} {cwd place place' : Place} {ss rs : List Text} {p : Path} {n s : Text}
  {c : Content}

theorem destination_of_endsIn (h : p.EndsIn ss n) (cwd : Place) :
    destination cwd p =
      (Path.ofPieces false ss).foldl Component.follow (startPlace cwd p) ++ [n] := by
  rw [destination, h.steps, List.foldl_append]
  rfl

theorem exists_walk_of_append (h : t.walk place (ss ++ rs) = .ok place') :
    ∃ q, t.walk place ss = .ok q ∧ t.walk q rs = .ok place' := by
  induction ss generalizing place with
  | nil => exact ⟨place, rfl, h⟩
  | cons s ss ih =>
    rw [List.cons_append] at h
    have hdir := directory_of_walk_cons h
    rcases piece_cases s with rfl | rfl | rfl | hs
    · rw [walk_cons_nil hdir] at h ⊢
      exact ih h
    · rw [walk_cons_dot hdir] at h ⊢
      exact ih h
    · rw [walk_cons_dots hdir] at h ⊢
      exact ih h
    · obtain ⟨hfits, hnode⟩ := fits_of_walk_cons hs h
      rw [walk_cons_name hdir hs hfits hnode] at h ⊢
      exact ih h

theorem locate_of_endsIn (hp : p.EndsIn ss n) (hrefuse : refuse? p = none)
    (hpasses : t.Passes (startPlace cwd p) (Path.ofPieces false ss))
    (hfits : (Component.normal n).Fits) (hnode : (t.get? (destination cwd p)).isSome) :
    t.locate cwd p = .ok (destination cwd p) := by
  have hpieces := hp.pieces_eq
  rw [destination_of_endsIn hp] at hnode ⊢
  rw [Path.pieces] at hpieces
  simp only [locate, hrefuse, hpieces, walk_append (walk_of_passes hpasses)]
  rw [walk_cons_name hpasses.last hp.proper hfits hnode, walk]

/-- A walk that ends at a file takes a name as its last step. -/
theorem endsIn_of_walk (ht : t.WellFormed) (h : t.walk place p.pieces = .ok place')
    (hfile : t.get? place' = some (.file c)) :
    ∃ ss n, p.EndsIn ss n ∧ (Component.normal n).Fits ∧
      t.Passes place (Path.ofPieces false ss) := by
  rcases List.eq_nil_or_concat p.pieces with hnil | ⟨ss, n, hpieces⟩
  · exact absurd hnil (Text.splitOn_ne_nil '/' p.text)
  · rw [List.concat_eq_append] at hpieces
    rw [hpieces] at h
    obtain ⟨q, hq, hlast⟩ := exists_walk_of_append h
    have hdir := directory_of_walk_cons hlast
    have hpasses := passes_of_walk hq hdir
    rcases piece_cases n with rfl | rfl | rfl | hn
    · rw [walk_cons_nil hdir] at hlast
      cases hlast
      rw [hdir] at hfile
      cases hfile
    · rw [walk_cons_dot hdir] at hlast
      cases hlast
      rw [hdir] at hfile
      cases hfile
    · rw [walk_cons_dots hdir] at hlast
      cases hlast
      rw [ht.dropLast hdir] at hfile
      cases hfile
    · exact ⟨ss, n, ⟨hpieces, hn⟩, (fits_of_walk_cons hn hlast).1, hpasses⟩

theorem node?_eq_file_iff (ht : t.WellFormed) :
    t.node? cwd p = .ok (.file c) ↔
      refuse? p = none ∧ (∃ ss n, p.EndsIn ss n ∧ (Component.normal n).Fits ∧
        t.Passes (startPlace cwd p) (Path.ofPieces false ss)) ∧
      t.get? (destination cwd p) = some (.file c) := by
  constructor
  · intro h
    have hrefuse : refuse? p = none := by
      by_contra hne
      obtain ⟨e, he⟩ := Option.ne_none_iff_exists'.1 hne
      simp only [node?, locate, he] at h
      cases h
    cases hwalk : t.walk (startPlace cwd p) p.pieces with
    | error e =>
      rw [Path.pieces] at hwalk
      simp only [node?, locate, hrefuse, hwalk] at h
      cases h
    | ok place =>
      have hget : t.get? place = some (.file c) := by
        have hpieces := hwalk
        rw [Path.pieces] at hpieces
        simp only [node?, locate, hrefuse, hpieces] at h
        split at h
        · rename_i node hnode
          cases h
          exact hnode
        · cases h
      obtain ⟨ss, n, hp, hfits, hpasses⟩ := endsIn_of_walk ht hwalk hget
      -- The place of the walk is the one that the steps lead to.
      have hplace : destination cwd p = place := by
        rw [hp.pieces_eq, walk_append (walk_of_passes hpasses)] at hwalk
        have hnode := (fits_of_walk_cons hp.proper hwalk).2
        rw [walk_cons_name hpasses.last hp.proper hfits hnode, walk] at hwalk
        rw [destination_of_endsIn hp]
        exact Except.ok.inj hwalk
      rw [hplace]
      exact ⟨hrefuse, ⟨ss, n, hp, hfits, hpasses⟩, hget⟩
  · rintro ⟨hrefuse, ⟨ss, n, hp, hfits, hpasses⟩, hget⟩
    have hnode : (t.get? (destination cwd p)).isSome := by
      rw [hget]
      rfl
    rw [node?, locate_of_endsIn hp hrefuse hpasses hfits hnode]
    simp only [hget]

theorem isFile_iff : t.isFile cwd p = true ↔ ∃ c, t.node? cwd p = .ok (.file c) := by
  unfold isFile
  split
  · rename_i c hc
    simp [hc]
  · rename_i hne
    simpa using hne

theorem readText_eq_ok_iff : t.readText cwd p = .ok s ↔ t.node? cwd p = .ok (.file (.text s)) := by
  unfold readText
  split
  · rename_i e he
    simp [he]
  · rename_i he
    simp [he]
  · rename_i r he
    simp [he]
  · rename_i bytes he
    simp [he]

/-- A text stays readable as long as the directories on the way and the file itself stay. -/
theorem readText_of_kept (ht : t.WellFormed) (hu : u.WellFormed)
    (hdirs : ∀ q, t.get? q = some .directory → u.get? q = some .directory)
    (h : t.readText cwd p = .ok s)
    (hkept : u.get? (destination cwd p) = t.get? (destination cwd p)) :
    u.readText cwd p = .ok s := by
  rw [readText_eq_ok_iff, node?_eq_file_iff ht] at h
  obtain ⟨hrefuse, ⟨ss, n, hp, hfits, hpasses⟩, hget⟩ := h
  rw [readText_eq_ok_iff, node?_eq_file_iff hu]
  exact ⟨hrefuse, ⟨ss, n, hp, hfits, hpasses.mono hdirs⟩, hkept.trans hget⟩

section Direct
variable (hp : p.IsDirect)
include hp

theorem exists_names_of_isDirect :
    ∃ names : Place, p.components = .root :: names.map .normal ∧
      ∀ cwd, destination cwd p = names := by
  obtain ⟨names, hnames⟩ := Path.exists_names_of_parent_not_mem
    fun h => hp.2 (p.steps_subset_components h)
  refine ⟨names, ?_, fun cwd => ?_⟩
  · rw [Path.components_of_isAbsolute hp.1, Path.steps, hnames]
  · rw [destination, startPlace, if_pos hp.1, Path.steps, hnames, foldl_follow_map_normal,
      List.nil_append]

theorem same_iff_destination {q : Path} (hq : q.IsDirect) (cwd : Place) :
    p.same q = true ↔ destination cwd p = destination cwd q := by
  obtain ⟨names, hpnames, hpdest⟩ := exists_names_of_isDirect hp
  obtain ⟨names', hqnames, hqdest⟩ := exists_names_of_isDirect hq
  rw [Path.same, decide_eq_true_iff, hpnames, hqnames, hpdest, hqdest]
  constructor
  · intro h
    apply List.map_injective_iff.2 (fun a b hab => Component.normal.inj hab)
    exact (List.cons.inj h).2
  · intro h
    rw [h]

theorem readText_iff_of_isDirect (ht : t.WellFormed) :
    t.readText cwd p = .ok s ↔
      refuse? p = none ∧ (∃ ss n, p.EndsIn ss n) ∧
        t.get? (destination cwd p) = some (.file (.text s)) := by
  rw [readText_eq_ok_iff, node?_eq_file_iff ht]
  constructor
  · rintro ⟨hrefuse, ⟨ss, n, hends, _, _⟩, hget⟩
    exact ⟨hrefuse, ⟨ss, n, hends⟩, hget⟩
  · rintro ⟨hrefuse, ⟨ss, n, hends⟩, hget⟩
    obtain ⟨names, hnames, hdest⟩ := exists_names_of_isDirect hp
    obtain ⟨dir, m, hplace, hdir, hm⟩ := ht.exists_of_file hget
    -- All pieces before the last name stand for the names of the directory.
    have hsteps : Path.ofPieces false ss ++ [.normal n] = dir.map .normal ++ [.normal m] := by
      rw [← hends.steps]
      rw [Path.components_of_isAbsolute hp.1] at hnames
      rw [(List.cons.inj hnames).2, ← hdest cwd, hplace, List.map_append]
      rfl
    obtain ⟨hss, hn⟩ := List.append_inj' hsteps rfl
    have hnm : n = m := Component.normal.inj (List.singleton_inj.1 hn)
    refine ⟨hrefuse, ⟨ss, n, hends, hnm ▸ hm.fits, ?_⟩, hget⟩
    rw [hss, startPlace, if_pos hp.1]
    exact (ht.isEntered hdir).passes

end Direct

end FileTree

end Literate
