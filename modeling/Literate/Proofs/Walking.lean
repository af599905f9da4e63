import Literate.FileTree.Basic
import Literate.Proofs.PathComponents

/-!
# Following paths through a file tree

A path leads to a directory exactly when every place that its components pass is a directory and no
name is too long. Where it leads then depends on its components only. All places on the way to a
directory that has been entered are directories.
-/

namespace Literate

namespace Component

def follow (place : Place) : Component → Place
  | root => []
  | current => place
  | parent => place.dropLast
  | normal name => place ++ [name]

/-- The component is not a name beyond the limit. -/
def Fits : Component → Prop
  | normal name => Text.byteLength name ≤ FileTree.nameLimit
  | _ => True

instance (c : Component) : Decidable c.Fits :=
  match c with
  | root => inferInstanceAs (Decidable True)
  | current => inferInstanceAs (Decidable True)
  | parent => inferInstanceAs (Decidable True)
  | normal _ => inferInstanceAs (Decidable (_ ≤ _))

end Component

namespace FileTree
variable {t : FileTree} {cwd place place' : Place} {s : Text} {ss rs : List Text}
  {cs ds : List Component} {p q : Path}

/-- Every place on the way is a directory, the last one included, and every name fits. -/
def Passes (t : FileTree) : Place → List Component → Prop
  | place, [] => t.get? place = some .directory
  | place, c :: cs => t.get? place = some .directory ∧ c.Fits ∧ Passes t (c.follow place) cs

theorem Passes.directory (h : t.Passes place cs) : t.get? place = some .directory := by
  cases cs with
  | nil => exact h
  | cons c cs => exact h.1

theorem passes_append :
    t.Passes place (cs ++ ds) ↔
      t.Passes place cs ∧ t.Passes (cs.foldl Component.follow place) ds := by
  induction cs generalizing place with
  | nil => exact ⟨fun h => ⟨h.directory, h⟩, fun h => h.2⟩
  | cons c cs ih =>
    rw [List.cons_append, Passes, Passes, ih, List.foldl_cons]
    simp only [and_assoc]

theorem Passes.last (h : t.Passes place cs) :
    t.get? (cs.foldl Component.follow place) = some .directory := by
  rw [← List.append_nil cs] at h
  exact (passes_append.1 h).2

section Steps
variable (hplace : t.get? place = some .directory)
include hplace

theorem walk_cons_nil (ss : List Text) : t.walk place ([] :: ss) = t.walk place ss := by
  simp [walk, hplace]

theorem walk_cons_dot (ss : List Text) : t.walk place (['.'] :: ss) = t.walk place ss := by
  simp [walk, hplace]

theorem walk_cons_dots (ss : List Text) :
    t.walk place (['.', '.'] :: ss) = t.walk place.dropLast ss := by
  simp [walk, hplace]

theorem walk_cons_name (hs : IsProper s) (hfits : (Component.normal s).Fits)
    (hnode : (t.get? (place ++ [s])).isSome) (ss : List Text) :
    t.walk place (s :: ss) = t.walk (place ++ [s]) ss := by
  have hlimit : ¬ nameLimit < Text.byteLength s := Nat.not_lt.2 hfits
  obtain ⟨node, hnode⟩ := Option.isSome_iff_exists.1 hnode
  simp [walk, hplace, hs.1, hs.2.1, hs.2.2, hlimit, hnode]

theorem walk_cons_missing (hs : IsProper s) (hfits : (Component.normal s).Fits)
    (hnode : t.get? (place ++ [s]) = none) (ss : List Text) :
    t.walk place (s :: ss) = .error .notFound := by
  have hlimit : ¬ nameLimit < Text.byteLength s := Nat.not_lt.2 hfits
  simp [walk, hplace, hs.1, hs.2.1, hs.2.2, hlimit, hnode]

end Steps

theorem directory_of_walk_cons (h : t.walk place (s :: ss) = .ok place') :
    t.get? place = some .directory := by
  rw [walk] at h
  split at h
  · cases h
  · cases h
  · assumption

theorem fits_of_walk_cons (hs : IsProper s) (h : t.walk place (s :: ss) = .ok place') :
    (Component.normal s).Fits ∧ (t.get? (place ++ [s])).isSome := by
  have hfits : (Component.normal s).Fits := by
    by_contra hlong
    have hlimit : nameLimit < Text.byteLength s := Nat.not_le.1 hlong
    simp [walk, directory_of_walk_cons h, hs.1, hs.2.1, hs.2.2, hlimit] at h
  refine ⟨hfits, ?_⟩
  by_contra hnone
  rw [walk_cons_missing (directory_of_walk_cons h) hs hfits (by simpa using hnone)] at h
  cases h

theorem walk_append (h : t.walk place ss = .ok place') :
    t.walk place (ss ++ rs) = t.walk place' rs := by
  induction ss generalizing place with
  | nil =>
    cases h
    rfl
  | cons s ss ih =>
    have hdir := directory_of_walk_cons h
    rw [List.cons_append]
    rcases piece_cases s with rfl | rfl | rfl | hs
    · rw [walk_cons_nil hdir] at h ⊢
      exact ih h
    · rw [walk_cons_dot hdir] at h ⊢
      exact ih h
    · rw [walk_cons_dots hdir] at h ⊢
      exact ih h
    · obtain ⟨hfits, hnode⟩ := fits_of_walk_cons hs h
      rw [walk_cons_name hdir hs hfits hnode] at h ⊢
      exact ih h

theorem walk_of_passes (h : t.Passes place (Path.ofPieces false ss)) :
    t.walk place ss = .ok ((Path.ofPieces false ss).foldl Component.follow place) := by
  induction ss generalizing place with
  | nil => rfl
  | cons s ss ih =>
    have hdir := h.directory
    rcases piece_cases s with rfl | rfl | rfl | hs
    · rw [walk_cons_nil hdir]
      exact ih h
    · rw [walk_cons_dot hdir]
      exact ih h
    · rw [walk_cons_dots hdir]
      exact ih h.2.2
    · rw [Path.ofPieces, Component.ofPiece?_of_isProper false hs] at h ⊢
      have hnode : (t.get? (place ++ [s])).isSome := by
        have := h.2.2.directory
        rw [Component.follow] at this
        rw [this]
        rfl
      rw [walk_cons_name hdir hs h.2.1 hnode]
      exact ih h.2.2

theorem passes_of_walk (h : t.walk place ss = .ok place')
    (hlast : t.get? place' = some .directory) : t.Passes place (Path.ofPieces false ss) := by
  induction ss generalizing place with
  | nil =>
    cases h
    exact hlast
  | cons s ss ih =>
    have hdir := directory_of_walk_cons h
    rcases piece_cases s with rfl | rfl | rfl | hs
    · rw [walk_cons_nil hdir] at h
      exact ih h
    · rw [walk_cons_dot hdir] at h
      exact ih h
    · rw [walk_cons_dots hdir] at h
      exact ⟨hdir, trivial, ih h⟩
    · obtain ⟨hfits, hnode⟩ := fits_of_walk_cons hs h
      rw [walk_cons_name hdir hs hfits hnode] at h
      rw [Path.ofPieces, Component.ofPiece?_of_isProper false hs]
      exact ⟨hdir, hfits, ih h⟩

theorem refuse?_eq_none_iff :
    refuse? p = none ↔
      p.text.any (·.toNat = 0) = false ∧ p.text ≠ [] ∧ Text.byteLength p.text ≤ pathLimit := by
  rw [refuse?]
  split
  · rename_i hnul
    simp [hnul]
  · rename_i hnul
    rw [Bool.not_eq_true] at hnul
    split
    · rename_i hnil
      simp [hnil]
    · rename_i hnil
      split
      · rename_i hlong
        simp only [reduceCtorEq, false_iff]
        exact fun h => absurd h.2.2 (Nat.not_le.2 hlong)
      · rename_i hlong
        exact iff_of_true rfl ⟨hnul, hnil, Nat.not_lt.1 hlong⟩

/-- Where a path leads if everything on the way is a directory. -/
def destination (cwd : Place) (p : Path) : Place :=
  p.steps.foldl Component.follow (startPlace cwd p)

/-- A path that leads to a directory passes directories only, and its steps say where it leads. -/
theorem enter_eq_ok_iff :
    t.enter cwd p = .ok place ↔
      refuse? p = none ∧ t.Passes (startPlace cwd p) p.steps ∧ destination cwd p = place := by
  rw [enter, locate]
  constructor
  · intro h
    split at h
    · cases h
    · rename_i place' hlocate
      split at hlocate
      · cases hlocate
      · rename_i hrefuse
        split at h
        · rename_i hlast
          cases h
          have hpasses := passes_of_walk hlocate hlast
          have hfollow := walk_of_passes hpasses
          rw [hlocate] at hfollow
          exact ⟨hrefuse, hpasses, (Except.ok.inj hfollow).symm⟩
        · cases h
  · rintro ⟨hrefuse, hpasses, rfl⟩
    have hwalk := walk_of_passes hpasses
    rw [Path.steps, Path.pieces] at *
    simp only [hrefuse, hwalk, if_pos hpasses.last]
    rfl

section Components
variable (hcwd : t.get? cwd = some .directory)

theorem foldl_components (cwd : Place) (p : Path) :
    p.components.foldl Component.follow cwd = destination cwd p := by
  rw [destination, startPlace]
  cases habs : p.isAbsolute with
  | true =>
    rw [Path.components_of_isAbsolute habs]
    rfl
  | false =>
    rcases Path.components_eq_or_cons habs with hcs | hcs <;> rw [hcs] <;> rfl

include hcwd

theorem passes_components :
    t.Passes cwd p.components ↔ t.Passes (startPlace cwd p) p.steps := by
  rw [startPlace]
  cases habs : p.isAbsolute with
  | true =>
    rw [Path.components_of_isAbsolute habs]
    exact ⟨fun h => h.2.2, fun h => ⟨hcwd, trivial, h⟩⟩
  | false =>
    rcases Path.components_eq_or_cons habs with hcs | hcs
    · rw [hcs]
      exact Iff.rfl
    · rw [hcs]
      exact ⟨fun h => h.2.2, fun h => ⟨hcwd, trivial, h⟩⟩

theorem passes_of_mem_ancestors (h : t.Passes (startPlace cwd p) p.steps) (hq : q ∈ p.ancestors) :
    t.Passes (startPlace cwd q) q.steps := by
  obtain ⟨cs, hcs⟩ := Path.components_prefix_of_mem_ancestors hq
  rw [← passes_components hcwd] at h ⊢
  rw [← hcs] at h
  exact (passes_append.1 h).1

end Components

/-- The name can stand in a path: it is proper, fits, and holds no separator and no NUL. -/
structure IsName (n : Text) : Prop where
  proper : IsProper n
  no_slash : '/' ∉ n
  no_nul : n.any (·.toNat = 0) = false
  fits : (Component.normal n).Fits

section Inside
variable {name : Text} (hname : IsName name)
include hname

/-- The path of a name in a directory leads to the entry of that name, if there is one. -/
theorem locate_join (hpasses : t.Passes (startPlace cwd q) q.steps)
    (hrefuse : refuse? (q.join ⟨name⟩) = none) :
    t.locate cwd (q.join ⟨name⟩) =
      if (t.get? (destination cwd q ++ [name])).isSome then .ok (destination cwd q ++ [name])
      else .error .notFound := by
  have hstart : startPlace cwd (q.join ⟨name⟩) = startPlace cwd q := by
    rw [startPlace, startPlace, Path.isAbsolute_join_name hname.no_slash]
  obtain ⟨ss, hpieces, hss⟩ := Path.exists_pieces_join_name hname.no_slash q
  rw [Path.pieces] at hpieces
  rw [destination, ← hss]
  rw [← hss] at hpasses
  simp only [locate, hrefuse, hstart, hpieces, walk_append (walk_of_passes hpasses)]
  split
  · rename_i hnode
    rw [walk_cons_name hpasses.last hname.proper hname.fits hnode, walk]
  · rename_i hnode
    rw [walk_cons_missing hpasses.last hname.proper hname.fits (by simpa using hnode)]

theorem node?_join (hpasses : t.Passes (startPlace cwd q) q.steps)
    (hrefuse : refuse? (q.join ⟨name⟩) = none) :
    t.node? cwd (q.join ⟨name⟩) =
      (t.get? (destination cwd q ++ [name])).elim (.error .notFound) .ok := by
  rw [node?, locate_join hname hpasses hrefuse]
  cases hnode : t.get? (destination cwd q ++ [name]) with
  | none => rfl
  | some node => simp [hnode]

end Inside

/-- A directory that can be entered: so can everything on the way to it. -/
structure IsEntered (t : FileTree) (place : Place) : Prop where
  directories : ∀ q, q <+: place → t.get? q = some .directory
  names : ∀ n ∈ place, IsName n

theorem isEntered_nil (t : FileTree) : t.IsEntered [] where
  directories := by
    intro q hq
    rw [List.prefix_nil.1 hq]
    rfl
  names := by simp

theorem IsEntered.of_prefix (h : t.IsEntered place) (hinit : place' <+: place) :
    t.IsEntered place' where
  directories := fun q hq => h.directories q (hq.trans hinit)
  names := fun n hn => h.names n (hinit.subset hn)

theorem IsEntered.concat {n : Text} (h : t.IsEntered place) (hn : IsName n)
    (hdir : t.get? (place ++ [n]) = some .directory) : t.IsEntered (place ++ [n]) where
  directories := by
    intro q hq
    rcases List.prefix_concat_iff.1 hq with rfl | hq
    · exact hdir
    · exact h.directories q hq
  names := by
    intro m hm
    rcases List.mem_append.1 hm with hm | hm
    · exact h.names m hm
    · rw [List.mem_singleton.1 hm]
      exact hn

theorem IsEntered.foldl_follow (h : t.IsEntered place) (hpasses : t.Passes place cs)
    (hnames : ∀ n, .normal n ∈ cs → IsName n) :
    t.IsEntered (cs.foldl Component.follow place) := by
  induction cs generalizing place with
  | nil => exact h
  | cons c cs ih =>
    have hrest : ∀ n, .normal n ∈ cs → IsName n :=
      fun n hn => hnames n (List.mem_cons_of_mem _ hn)
    refine ih ?_ hpasses.2.2 hrest
    -- Only a name leads to a place that has not been passed before.
    cases c with
    | root => exact isEntered_nil t
    | current => exact h
    | parent => exact h.of_prefix (List.dropLast_prefix place)
    | normal n => exact h.concat (hnames n List.mem_cons_self) hpasses.2.2.directory

theorem Passes.fits {c : Component} (h : t.Passes place cs) (hc : c ∈ cs) : c.Fits := by
  induction cs generalizing place with
  | nil => cases hc
  | cons d cs ih =>
    rcases List.mem_cons.1 hc with rfl | hc
    · exact h.2.1
    · exact ih h.2.2 hc

theorem Passes.isName {n : Text} (h : t.Passes place p.steps)
    (hnul : p.text.any (·.toNat = 0) = false) (hn : .normal n ∈ p.steps) : IsName n := by
  obtain ⟨hmem, hproper⟩ := Path.mem_of_normal_mem_ofPieces hn
  refine ⟨hproper, Text.not_mem_of_mem_splitOn hmem, ?_, h.fits hn⟩
  rw [List.any_eq_false] at hnul ⊢
  exact fun c hc => hnul c (Text.mem_of_mem_splitOn hmem hc)

theorem isEntered_of_enter (hcwd : t.IsEntered cwd) (h : t.enter cwd p = .ok place) :
    t.IsEntered place := by
  obtain ⟨hrefuse, hpasses, rfl⟩ := enter_eq_ok_iff.1 h
  have hstart : t.IsEntered (startPlace cwd p) := by
    rw [startPlace]
    split
    · exact isEntered_nil t
    · exact hcwd
  exact hstart.foldl_follow hpasses fun n hn =>
    hpasses.isName (refuse?_eq_none_iff.1 hrefuse).1 hn

theorem foldl_follow_map_normal (place names : Place) :
    (names.map Component.normal).foldl Component.follow place = place ++ names := by
  induction names generalizing place with
  | nil => simp
  | cons n names ih =>
    rw [List.map_cons, List.foldl_cons, ih, Component.follow, List.append_assoc]
    rfl

theorem IsEntered.passes (h : t.IsEntered place) : t.Passes [] (place.map .normal) := by
  induction place using List.reverseRecOn with
  | nil => exact h.directories [] List.nil_prefix
  | append_singleton place n ih =>
    have hplace : place <+: place ++ [n] := List.prefix_append place [n]
    rw [List.map_append, passes_append, foldl_follow_map_normal, List.nil_append]
    exact ⟨ih (h.of_prefix hplace), h.directories place hplace, (h.names n (by simp)).fits,
      h.directories (place ++ [n]) (List.prefix_refl _)⟩

theorem steps_path (hplace : ∀ n ∈ place, IsName n) : place.path.steps = place.map .normal := by
  have hsplit : ∀ (n : Text) (ns : Place), (∀ m ∈ n :: ns, '/' ∉ m) →
      Text.splitOn '/' (n ++ ns.flatMap ('/' :: ·)) = n :: ns := by
    intro n ns hns
    induction ns generalizing n with
    | nil =>
      rw [List.flatMap_nil, List.append_nil]
      exact Path.splitOn_of_not_mem (hns n List.mem_cons_self)
    | cons m ns ih =>
      obtain ⟨hn, hrest⟩ := List.forall_mem_cons.1 hns
      rw [List.flatMap_cons, List.cons_append, Text.splitOn_append_cons,
        Path.splitOn_of_not_mem hn, ih m hrest]
      rfl
  cases place with
  | nil => rfl
  | cons n ns =>
    have hpieces : (Place.path (n :: ns)).pieces = [] :: n :: ns :=
      hsplit [] (n :: ns) (by simpa using fun m hm => (hplace m hm).no_slash)
    rw [Path.steps, hpieces]
    exact Path.ofPieces_of_isProper fun m hm => (hplace m hm).proper

theorem isAbsolute_path (place : Place) : place.path.isAbsolute = true := by
  cases place <;> rfl

theorem destination_path (hplace : ∀ n ∈ place, IsName n) (cwd : Place) :
    destination cwd place.path = place := by
  rw [destination, startPlace, if_pos (isAbsolute_path place), steps_path hplace,
    foldl_follow_map_normal, List.nil_append]

/-- The written form of a directory leads back to it. -/
theorem IsEntered.enter_path (h : t.IsEntered place)
    (hlength : Text.byteLength place.path.text ≤ pathLimit) (cwd : Place) :
    t.enter cwd place.path = .ok place := by
  refine enter_eq_ok_iff.2 ⟨refuse?_eq_none_iff.2 ⟨?_, ?_, hlength⟩, ?_,
    destination_path h.names cwd⟩
  · cases place with
    | nil => rfl
    | cons n ns =>
      have htext : (Place.path (n :: ns)).text = (n :: ns).flatMap ('/' :: ·) := rfl
      rw [htext, List.any_flatMap, List.any_eq_false]
      intro m hm
      simp [(h.names m hm).no_nul]
  · cases place <;> simp [Place.path]
  · rw [startPlace, if_pos (isAbsolute_path place), steps_path h.names]
    exact h.passes

end FileTree

end Literate
