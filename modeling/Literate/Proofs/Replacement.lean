import Literate.Proofs.FilePaths
import Mathlib.Data.List.TakeWhile

/-!
# Making directories and replacing files

What the calls that change a tree do when they succeed, seen from the places of the tree. Making a
directory with its parents only adds directories. Replacing a file puts the new content where the
path leads and leaves nothing where the content was written first; all other places stay as they
were.
-/

namespace Literate

namespace Path
variable {p q : Path} {ss : List Text} {n : Text}

theorem EndsIn.exists_components (h : p.EndsIn ss n) :
    ∃ cs, p.components = cs ++ [.normal n] ∧ (p.isAbsolute = true → cs ≠ []) := by
  cases habs : p.isAbsolute with
  | true =>
    refine ⟨.root :: ofPieces false ss, ?_, by simp⟩
    rw [components_of_isAbsolute habs, h.steps]
    rfl
  | false =>
    rcases components_eq_or_cons habs with hcs | hcs
    · exact ⟨ofPieces false ss, by rw [hcs, h.steps], by simp⟩
    · exact ⟨.current :: ofPieces false ss, by rw [hcs, h.steps]; rfl, by simp⟩

/-- A path that ends in a name has a parent, and the parent has all of its components but the
last. -/
theorem EndsIn.exists_parent (h : p.EndsIn ss n) :
    ∃ q, p.parent? = some q ∧ p.components = q.components ++ [.normal n] := by
  obtain ⟨cs, hcs, hroot⟩ := h.exists_components
  have hinits : cs.inits.reverse.head? = some cs := by
    rw [List.head?_reverse, getLast?_inits]
  have htail : (p.ancestors.map components).tail.head? = some cs := by
    rw [map_components_ancestors, hcs, List.inits_append]
    cases habs : p.isAbsolute with
    | false => simpa using hinits
    | true =>
      obtain ⟨c, cs', rfl⟩ := List.exists_cons_of_ne_nil (hroot habs)
      have hnil : (c :: cs').inits.tail ≠ [] := by
        rw [List.inits_cons, List.tail_cons, inits_eq_cons cs']
        exact List.cons_ne_nil _ _
      rw [inits_eq_cons, List.reverse_cons, List.head?_append_of_ne_nil _ (by simpa using hnil)]
        at hinits
      rw [if_pos rfl, inits_eq_cons (c :: cs'), List.cons_append, List.tail_cons,
        List.reverse_append]
      simpa using hinits
  rw [← List.map_tail, List.head?_map] at htail
  obtain ⟨q, hq, hqcs⟩ := Option.map_eq_some_iff.1 htail
  exact ⟨q, hq, by rw [hcs, hqcs]⟩

end Path

namespace FileTree
variable {t u : FileTree} {cwd dir place : Place} {p q source target : Path} {name s : Text}
  {content : Content} {trailing : Bool}

theorem isOrdinary_iff : isOrdinary name = true ↔ IsProper name := by
  simp [isOrdinary, IsProper, and_assoc]

/-- Cutting off trailing separators takes empty pieces only. -/
theorem exists_pieces_eq_steps (p : Path) :
    ∃ k, p.pieces = (steps p).1 ++ List.replicate k [] ∧ ((steps p).2 = false → k = 0) := by
  have hsplit := List.takeWhile_append_dropWhile (p := fun s : Text => s = [])
    (l := p.pieces.reverse)
  have hempty : p.pieces.reverse.takeWhile (fun s : Text => s = []) =
      List.replicate (p.pieces.reverse.takeWhile (fun s : Text => s = [])).length [] := by
    apply List.eq_replicate_of_mem
    intro s hs
    simpa using List.mem_takeWhile_imp hs
  refine ⟨(p.pieces.reverse.takeWhile (fun s : Text => s = [])).length, ?_, ?_⟩
  · have hpieces := congrArg List.reverse hsplit
    rw [List.reverse_append, List.reverse_reverse, hempty, List.reverse_replicate] at hpieces
    exact hpieces.symm
  · intro hhead
    have hne : p.pieces.reverse.head? ≠ some [] := by simpa [steps, Path.pieces] using hhead
    rw [List.length_eq_zero_iff]
    cases hrev : p.pieces.reverse with
    | nil => rfl
    | cons s ss =>
      rw [hrev] at hne
      exact List.takeWhile_cons_of_neg (by simpa using hne)

theorem ofPieces_replicate (k : Nat) : Path.ofPieces false (List.replicate k []) = [] := by
  induction k with
  | zero => rfl
  | succ k ih => exact ih

/-- The path leads through directories to the entry `name` of the directory `dir`, which may be
missing. -/
structure LeadsInto (t : FileTree) (cwd : Place) (p : Path) (dir : Place) (name : Text) : Prop where
  accepted : refuse? p = none
  proper : IsProper name
  mem_pieces : name ∈ p.pieces
  steps_eq : ∃ cs, p.steps = cs ++ [.normal name] ∧ t.Passes (startPlace cwd p) cs ∧
    cs.foldl Component.follow (startPlace cwd p) = dir

namespace LeadsInto
variable (h : t.LeadsInto cwd p dir name)
include h

theorem destination_eq : destination cwd p = dir ++ [name] := by
  obtain ⟨cs, hcs, _, rfl⟩ := h.steps_eq
  rw [destination, hcs, List.foldl_append]
  rfl

theorem directory : t.get? dir = some .directory := by
  obtain ⟨cs, _, hpasses, rfl⟩ := h.steps_eq
  exact hpasses.last

theorem isName (hfits : (Component.normal name).Fits) : IsName name := by
  have hnul := (refuse?_eq_none_iff.1 h.accepted).1
  refine ⟨h.proper, Text.not_mem_of_mem_splitOn h.mem_pieces, ?_, hfits⟩
  rw [List.any_eq_false] at hnul ⊢
  exact fun c hc => hnul c (Text.mem_of_mem_splitOn h.mem_pieces hc)

end LeadsInto

theorem leadsInto_of_beforeLast (h : t.beforeLast cwd p = .ok (dir, name, trailing))
    (hname : isOrdinary name = true) :
    t.LeadsInto cwd p dir name ∧ (trailing = false → ∃ ss, p.EndsIn ss name) := by
  rw [isOrdinary_iff] at hname
  obtain ⟨k, hpieces, htrailing⟩ := exists_pieces_eq_steps p
  unfold beforeLast at h
  split at h
  · cases h
  · rename_i hrefuse
    simp only at h
    split at h
    · cases h
    · rename_i place hwalk
      cases h
      rcases List.eq_nil_or_concat (steps p).1 with hnil | ⟨ss, n, hnames⟩
      · rw [hnil] at hname
        exact absurd rfl hname.1
      · rw [List.concat_eq_append] at hnames
        rw [hnames, List.dropLast_concat] at hwalk
        rw [hnames, List.getLast?_concat, Option.getD_some] at hname ⊢
        rw [hnames, List.append_assoc] at hpieces
        -- The empty piece at the end of the walk is there to make sure of a directory.
        obtain ⟨q, hq, hlast⟩ := exists_walk_of_append hwalk
        have hdir := directory_of_walk_cons hlast
        rw [walk_cons_nil hdir] at hlast
        cases hlast
        have hpasses := passes_of_walk hq hdir
        have hplace := walk_of_passes hpasses
        rw [hq] at hplace
        constructor
        · refine ⟨hrefuse, hname, ?_, Path.ofPieces false ss, ?_, hpasses,
            (Except.ok.inj hplace).symm⟩
          · rw [hpieces]
            simp
          · have hends : Path.ofPieces false ([n] ++ List.replicate k []) = [.normal n] := by
              rw [Path.ofPieces_append false (by simp), ofPieces_replicate, List.append_nil]
              exact Path.ofPieces_of_isProper (List.forall_mem_singleton.2 hname)
            rw [Path.steps, hpieces]
            by_cases hss : ss = []
            · subst hss
              exact hends
            · rw [Path.ofPieces_append false hss, hends]
        · intro hfalse
          rw [htrailing hfalse, List.replicate_zero, List.append_nil] at hpieces
          exact ⟨ss, hpieces, hname⟩

theorem beforeLast_of_lastStep (h : t.lastStep cwd p = .ok (dir, name, trailing)) :
    t.beforeLast cwd p = .ok (dir, name, trailing) ∧ (Component.normal name).Fits := by
  unfold lastStep at h
  split at h
  · cases h
  · rename_i hbefore
    split at h
    · cases h
    · rename_i hlimit
      cases h
      exact ⟨hbefore, Nat.not_lt.1 hlimit⟩

theorem makeDir_eq_ok (h : t.makeDir cwd p = .ok u) :
    ∃ dir name, t.LeadsInto cwd p dir name ∧ IsName name ∧ t.get? (dir ++ [name]) = none ∧
      u = t.put (dir ++ [name]) .directory := by
  unfold makeDir at h
  split at h
  · cases h
  · rename_i dir name trailing hlast
    obtain ⟨hbefore, hfits⟩ := beforeLast_of_lastStep hlast
    split at h
    · cases h
    · rename_i hname
      split at h
      · cases h
      · rename_i hnone
        cases h
        have hleads := (leadsInto_of_beforeLast hbefore (by simpa using hname)).1
        exact ⟨dir, name, hleads, hleads.isName hfits, hnone, rfl⟩

/-- Making a directory with its parents adds directories and nothing else, also if it fails. -/
theorem makeFirst_grows (ht : t.WellFormed) (cwd : Place) (ps : List Path) :
    t.Grows (makeFirst cwd t ps).1 ∧ (makeFirst cwd t ps).1.WellFormed := by
  have hmakeDir : ∀ {t u : FileTree} {p : Path}, t.WellFormed → t.makeDir cwd p = .ok u →
      t.Grows u ∧ u.WellFormed := by
    intro t u p ht hmake
    obtain ⟨dir, name, hleads, hname, hnone, rfl⟩ := makeDir_eq_ok hmake
    exact ⟨Grows.put hnone, ht.put hleads.directory hname fun _ => rfl⟩
  induction ps with
  | nil => exact ⟨Grows.refl t, ht⟩
  | cons p parents ih =>
    unfold makeFirst
    split
    · exact ⟨Grows.refl t, ht⟩
    · split
      · rename_i v hmake
        exact hmakeDir ht hmake
      · obtain ⟨hgrows, hwell⟩ := ih
        split
        · rename_i v e hparents
          rw [hparents] at hgrows hwell
          exact ⟨hgrows, hwell⟩
        · rename_i v hparents
          rw [hparents] at hgrows hwell
          split
          · rename_i w hmake
            obtain ⟨hmore, hw⟩ := hmakeDir hwell hmake
            exact ⟨hgrows.trans hmore, hw⟩
          · exact ⟨hgrows, hwell⟩
      · exact ⟨Grows.refl t, ht⟩

theorem createFile_eq_ok (h : t.createFile cwd p content = .ok u) :
    ∃ dir name, t.LeadsInto cwd p dir name ∧ IsName name ∧
      t.get? (dir ++ [name]) ≠ some .directory ∧ u = t.put (dir ++ [name]) (.file content) := by
  unfold createFile at h
  split at h
  · cases h
  · rename_i dir name trailing hbefore
    split at h
    · cases h
    · rename_i hname
      split at h
      · cases h
      · rename_i hlimit
        split at h
        · cases h
        · rename_i hnode
          cases h
          have hordinary : isOrdinary name = true := by
            by_contra hne
            simp [hne] at hname
          have hleads := (leadsInto_of_beforeLast hbefore hordinary).1
          exact ⟨dir, name, hleads, hleads.isName (Nat.not_lt.1 hlimit), hnode, rfl⟩

/-- A file is moved to where its new path leads, which is not a directory. -/
theorem moveFile_eq_ok (h : t.moveFile cwd source target = .ok u) :
    ∃ node dir name, t.get? (destination cwd source) = some node ∧
      t.LeadsInto cwd target dir name ∧ IsName name ∧ (∃ ss, target.EndsIn ss name) ∧
      t.get? (dir ++ [name]) ≠ some .directory ∧
      (destination cwd source = dir ++ [name] ∧ u = t ∨
        destination cwd source ≠ dir ++ [name] ∧
          u = (t.put (dir ++ [name]) node).erase (destination cwd source)) := by
  unfold moveFile at h
  split at h
  · cases h
  · cases h
  · rename_i sourceDir sourceName _ dir name trailing hsource htarget
    obtain ⟨hsource, _⟩ := beforeLast_of_lastStep hsource
    obtain ⟨htarget, hfits⟩ := beforeLast_of_lastStep htarget
    split at h
    · cases h
    · rename_i hnames
      have hnames : isOrdinary sourceName = true ∧ isOrdinary name = true := by
        by_contra hne
        simp only [not_and_or, Bool.not_eq_true] at hne
        rcases hne with hne | hne <;> simp [hne] at hnames
      obtain ⟨hfrom, _⟩ := leadsInto_of_beforeLast hsource hnames.1
      obtain ⟨hto, hends⟩ := leadsInto_of_beforeLast htarget hnames.2
      rw [hfrom.destination_eq]
      split at h
      · cases h
      · rename_i node hnode
        split at h
        · cases h
        · rename_i htrailing
          have hends := hends (by simpa using htrailing)
          split at h
          · cases h
          · rename_i hold
            refine ⟨node, dir, name, hnode, hto, hto.isName hfits, hends, hold, ?_⟩
            split at h
            · rename_i hsame
              cases h
              exact .inl ⟨hsame, rfl⟩
            · rename_i hdiffer
              cases h
              exact .inr ⟨hdiffer, rfl⟩

theorem destination_parent {ss : List Text} (h : p.EndsIn ss name) :
    ∃ q, p.parent? = some q ∧ ∀ cwd, destination cwd p = destination cwd q ++ [name] := by
  obtain ⟨q, hparent, hcomponents⟩ := h.exists_parent
  refine ⟨q, hparent, fun cwd => ?_⟩
  rw [← foldl_components, hcomponents, List.foldl_append, foldl_components]
  rfl

theorem destination_join_name (hslash : '/' ∉ name) (hproper : IsProper name) (cwd : Place)
    (q : Path) : destination cwd (q.join ⟨name⟩) = destination cwd q ++ [name] := by
  obtain ⟨ss, hpieces, hss⟩ := Path.exists_pieces_join_name hslash q
  have hstart : startPlace cwd (q.join ⟨name⟩) = startPlace cwd q := by
    rw [startPlace, startPlace, Path.isAbsolute_join_name hslash]
  rw [destination_of_endsIn ⟨hpieces, hproper⟩, hss, hstart]
  rfl

theorem get?_put_erase {aside target : Place} {node : Node} (haside : aside ≠ [])
    (htarget : target ≠ []) (hne : aside ≠ target) (r : Place) :
    (((t.put aside node).put target node).erase aside).get? r =
      if r = target then some node else if r = aside then none else t.get? r := by
  rw [get?_erase haside, get?_put htarget, get?_put haside]
  by_cases hr : r = target
  · rw [if_pos hr, if_pos hr, if_neg (hr ▸ hne.symm)]
  · rw [if_neg hr, if_neg hr]
    split <;> rfl

/-- The content goes where the path leads, and nothing is left in that directory under the name
that it was written to first. -/
theorem replaceFile_eq_ok {scratch : Text} (ht : t.WellFormed) (hslash : '/' ∉ scratch)
    (hproper : IsProper scratch) (h : t.replaceFile cwd scratch p s = (u, none)) :
    u.WellFormed ∧ refuse? p = none ∧
      (∀ r, t.get? r = some .directory → u.get? r = some .directory) ∧
      ∃ dir name, destination cwd p = dir ++ [name] ∧ (∃ ss, p.EndsIn ss name) ∧
      ∀ r, u.get? r = if r = dir ++ [name] then some (.file (.text s))
        else if r = dir ++ [scratch] then none else t.get? r := by
  unfold replaceFile at h
  simp only at h
  split at h
  · cases h
  · rename_i written hcreate
    split at h
    · rename_i moved hmove
      cases h
      obtain ⟨asideDir, aside, hinto, haside, hfree, rfl⟩ := createFile_eq_ok hcreate
      obtain ⟨node, dir, name, hnode, hleads, hname, ⟨ss, hends⟩, hold, hmoved⟩ :=
        moveFile_eq_ok hmove
      have hwritten : (t.put (asideDir ++ [aside]) (.file (.text s))).WellFormed :=
        ht.put hinto.directory haside fun hdir => absurd hdir hfree
      -- Both paths lead into one directory, since the scratch file stands beside the target.
      obtain ⟨q, hparent, hdest⟩ := destination_parent hends
      have hdir : dir = destination cwd q :=
        (List.append_inj' (hleads.destination_eq.symm.trans (hdest cwd)) rfl).1
      rw [hparent, Option.getD_some] at hinto hnode hmoved
      have hbeside : asideDir ++ [aside] = dir ++ [scratch] := by
        rw [← hinto.destination_eq, destination_join_name hslash hproper, hdir]
      rw [destination_join_name hslash hproper, ← hdir] at hnode hmoved
      rw [hbeside] at hwritten hmoved hold hleads hnode
      have hput : ∀ r, (t.put (dir ++ [scratch]) (.file (.text s))).get? r =
          if r = dir ++ [scratch] then some (.file (.text s)) else t.get? r :=
        get?_put (List.concat_ne_nil scratch dir)
      rw [hput, if_pos rfl, Option.some_inj] at hnode
      rw [← hnode] at hmoved
      have hget : ∀ r, u.get? r = if r = dir ++ [name] then some (.file (.text s))
          else if r = dir ++ [scratch] then none else t.get? r := by
        intro r
        rcases hmoved with ⟨hsame, rfl⟩ | ⟨hdiffer, rfl⟩
        · rw [hput, ← hsame]
          split <;> rfl
        · exact get?_put_erase (List.concat_ne_nil scratch dir) (List.concat_ne_nil name dir)
            hdiffer r
      refine ⟨?_, hleads.accepted, ?_, dir, name, hleads.destination_eq, ⟨ss, hends⟩, hget⟩
      · rcases hmoved with ⟨_, rfl⟩ | ⟨hdiffer, rfl⟩
        · exact hwritten
        · apply (hwritten.put hleads.directory hname fun hdir => absurd hdir hold).erase
            (List.concat_ne_nil scratch dir)
          rw [get?_put (List.concat_ne_nil name dir), if_neg hdiffer, hput, if_pos rfl]
          simp
      · intro r hr
        rw [hbeside] at hfree
        have haside : r ≠ dir ++ [scratch] := fun heq => hfree (heq ▸ hr)
        have htarget : r ≠ dir ++ [name] := by
          intro heq
          rw [← heq, hput, if_neg haside] at hold
          exact hold hr
        rw [hget, if_neg htarget, if_neg haside, hr]
    · cases h

end FileTree

end Literate
