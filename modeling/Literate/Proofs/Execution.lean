import Literate.Proofs.Replacement
import Literate.Transaction

/-!
# Executing a transaction

A write that succeeds changes one file, removes its scratch file and keeps everything else. Since no
target of a transaction stands in the way of another one, a write is needed when its turn comes
exactly if it was needed at the start. After the run every target holds its content, and nothing is
left to do.
-/

namespace Literate
variable {t u : FileTree} {p : Session} {n : Nat} {w : Write} {ws : Transaction} {q : Place}
  {c : Content}

namespace Session

theorem slash_not_mem_scratch (p : Session) (n : Nat) : '/' ∉ p.scratch n := by
  have hdigits : ∀ m, '/' ∉ Text.ofNat m := by
    intro m hmem
    have hdigit := Nat.isDigit_of_mem_toDigits (by decide) (by decide) hmem
    exact absurd hdigit (by decide)
  unfold scratch
  simp only [List.mem_append, List.mem_cons, not_or]
  exact ⟨⟨by decide, hdigits p.id⟩, by decide, hdigits n⟩

theorem isProper_scratch (p : Session) (n : Nat) : IsProper (p.scratch n) := by
  have hlength : 14 ≤ (p.scratch n).length := by
    have hstem : ".mdtangle-tmp-".toList.length = 14 := by decide
    unfold scratch
    simp only [List.length_append, hstem]
    omega
  refine ⟨?_, ?_, ?_⟩ <;> intro h <;> rw [h] at hlength <;> simp at hlength

theorem stem_prefix_scratch (p : Session) (n : Nat) : ".mdtangle-tmp-".toList <+: p.scratch n := by
  unfold scratch
  rw [List.append_assoc]
  exact List.prefix_append _ _

/-- A name without the stem of scratch files is the name of none. -/
theorem ne_some_scratch (p : Session) {name? : Option Text}
    (h : ∀ name ∈ name?, ¬ ".mdtangle-tmp-".toList <+: name) (n : Nat) :
    name? ≠ some (p.scratch n) :=
  fun hname => h _ hname (p.stem_prefix_scratch n)

/-- The place is named like a scratch file of the session. -/
def IsScratch (p : Session) (place : Place) : Prop :=
  ∃ dir m, place = dir ++ [p.scratch m]

/-- No file of the tree is named like a scratch file of the session. -/
def Unused (p : Session) (t : FileTree) : Prop :=
  ∀ q c, p.IsScratch q → t.get? q ≠ some (.file c)

theorem Unused.of_nodes
    (h : ∀ m ∈ t.nodes, ∀ name ∈ m.1.getLast?, ¬ ".mdtangle-tmp-".toList <+: name) :
    p.Unused t := by
  intro q c hq hfile
  obtain ⟨dir, m, rfl⟩ := hq
  have hsome : (FileTree.find (dir ++ [p.scratch m]) t.nodes).isSome := by
    rw [FileTree.get?, if_neg (by simp)] at hfile
    rw [hfile]
    rfl
  obtain ⟨node, hnode⟩ := FileTree.find_isSome_iff.1 hsome
  exact p.ne_some_scratch (h _ hnode) m List.getLast?_concat

end Session

namespace Write

/-- Where a write goes. -/
def place (p : Session) (w : Write) : Place :=
  FileTree.destination p.cwd w.path

theorem isUnchanged_iff :
    w.isUnchanged t p = true ↔ t.readText p.cwd w.path = .ok w.content := by
  unfold isUnchanged
  split
  · rename_i s hs
    simp [hs]
  · rename_i e he
    simp [he]

/-- What the `n`th write of a session means for the tree. -/
structure Done (p : Session) (n : Nat) (w : Write) (t u : FileTree) : Prop where
  wellFormed : u.WellFormed
  accepted : FileTree.refuse? w.path = none
  ends : ∃ ss name, w.path.EndsIn ss name
  directories : ∀ q, t.get? q = some .directory → u.get? q = some .directory
  written : u.get? (w.place p) = some (.file (.text w.content))
  others : ∀ {q c}, q ≠ w.place p → (u.get? q = some (.file c) ↔
    q ≠ (w.place p).dropLast ++ [p.scratch n] ∧ t.get? q = some (.file c))

theorem done_of_replaceFile {v : FileTree} (hgrows : t.Grows v) (hv : v.WellFormed)
    (h : v.replaceFile p.cwd (p.scratch n) w.path w.content = (u, none)) : w.Done p n t u := by
  obtain ⟨hu, haccepted, hdirs, dir, name, hplace, ⟨ss, hends⟩, hget⟩ :=
    FileTree.replaceFile_eq_ok hv (p.slash_not_mem_scratch n) (p.isProper_scratch n) h
  have hplace : w.place p = dir ++ [name] := hplace
  refine ⟨hu, haccepted, ⟨ss, name, hends⟩, fun q hq => hdirs q (hgrows.directory hq), ?_, ?_⟩
  · rw [hplace, hget, if_pos rfl]
  · intro q c hq
    rw [hplace] at hq
    rw [hget, if_neg hq, hplace, List.dropLast_concat, ← hgrows.file_iff]
    split
    · rename_i haside
      simp [haside]
    · rename_i haside
      simp [haside]

/-- The step lemma: whatever a write that succeeds has done. -/
theorem done_of_execute (ht : t.WellFormed) (h : w.execute t p n = (u, none)) :
    w.Done p n t u := by
  unfold execute at h
  split at h
  · exact done_of_replaceFile (FileTree.Grows.refl t) ht h
  · rename_i dir hdir
    obtain ⟨hgrows, hwell⟩ := FileTree.makeFirst_grows ht p.cwd dir.ancestors
    unfold FileTree.makeDirs at h
    split at h
    · cases h
    · rename_i v hmade
      rw [hmade] at hgrows hwell
      exact done_of_replaceFile hgrows hwell h

end Write

namespace Transaction

/-- No two targets are one file, none is named like a scratch file, and all paths start at the root
and never go up. -/
structure Separate (p : Session) (ws : Transaction) : Prop where
  direct : ∀ w ∈ ws, w.path.IsDirect
  apart : ws.Pairwise fun w w' => w.path.same w'.path = false
  named : ∀ w ∈ ws, ∀ m, w.path.fileName? ≠ some (p.scratch m)

namespace Separate
variable (h : Separate p (w :: ws))
include h

theorem tail : Separate p ws :=
  ⟨fun v hv => h.direct v (List.mem_cons_of_mem w hv), (List.pairwise_cons.1 h.apart).2,
    fun v hv => h.named v (List.mem_cons_of_mem w hv)⟩

theorem place_ne {v : Write} (hv : v ∈ ws) : w.place p ≠ v.place p := by
  intro heq
  have hdirect := h.direct w List.mem_cons_self
  have hsame := (FileTree.same_iff_destination hdirect
    (h.direct v (List.mem_cons_of_mem w hv)) p.cwd).2 heq
  rw [(List.pairwise_cons.1 h.apart).1 v hv] at hsame
  cases hsame

end Separate

theorem Separate.not_isScratch (h : Separate p ws) (hw : w ∈ ws) : ¬ p.IsScratch (w.place p) := by
  rintro ⟨dir, m, hplace⟩
  obtain ⟨names, hcomponents, hdest⟩ := FileTree.exists_names_of_isDirect (h.direct w hw)
  apply h.named w hw m
  have hnames : names = dir ++ [p.scratch m] := (hdest p.cwd).symm.trans hplace
  have hlast : w.path.components.getLast? = some (.normal (p.scratch m)) := by
    rw [hcomponents, hnames, List.map_append, ← List.cons_append]
    exact List.getLast?_concat
  simp only [Path.fileName?, hlast]

/-- What a run of writes has done: the targets hold their contents, and the other files are those of
before, up to files that are named like the scratch files of the run. -/
structure Done (p : Session) (ws : Transaction) (t u : FileTree) : Prop where
  wellFormed : u.WellFormed
  directories : ∀ q, t.get? q = some .directory → u.get? q = some .directory
  unchanged : ∀ w ∈ ws, w.isUnchanged u p = true
  old : ∀ {q c}, (∀ w ∈ ws, w.place p ≠ q) → u.get? q = some (.file c) →
    t.get? q = some (.file c)
  kept : ∀ {q c}, (∀ w ∈ ws, w.place p ≠ q) → ¬ p.IsScratch q → t.get? q = some (.file c) →
    u.get? q = some (.file c)

/-- A target that is up to date stays so while the others are written. -/
theorem Done.isUnchanged (h : Done p ws t u) (ht : t.WellFormed) (hws : Separate p (w :: ws))
    (hw : w.isUnchanged t p = true) : w.isUnchanged u p = true := by
  have hdirect := hws.direct w List.mem_cons_self
  rw [Write.isUnchanged_iff, FileTree.readText_iff_of_isDirect hdirect ht] at hw
  rw [Write.isUnchanged_iff, FileTree.readText_iff_of_isDirect hdirect h.wellFormed]
  refine ⟨hw.1, hw.2.1, ?_⟩
  apply h.kept
  · exact fun v hv heq => hws.place_ne hv heq.symm
  · exact hws.not_isScratch List.mem_cons_self
  · exact hw.2.2

/-- A write neither makes another one needless nor needed. -/
theorem isUnchanged_of_done (hdone : w.Done p n t u) (ht : t.WellFormed)
    (hws : Separate p (w :: ws)) {v : Write} (hv : v ∈ ws) :
    v.isUnchanged u p = v.isUnchanged t p := by
  have hdirect := hws.direct v (List.mem_cons_of_mem w hv)
  have hne : v.place p ≠ w.place p := (hws.place_ne hv).symm
  have hscratch : v.place p ≠ (w.place p).dropLast ++ [p.scratch n] :=
    fun heq => hws.tail.not_isScratch hv ⟨_, _, heq⟩
  rw [Bool.eq_iff_iff, Write.isUnchanged_iff, Write.isUnchanged_iff,
    FileTree.readText_iff_of_isDirect hdirect hdone.wellFormed,
    FileTree.readText_iff_of_isDirect hdirect ht]
  have hfile := hdone.others (c := .text v.content) hne
  rw [and_iff_right hscratch] at hfile
  exact and_congr_right fun _ => and_congr_right fun _ => hfile

theorem Done.cons_unchanged (h : Done p ws t u) (ht : t.WellFormed) (hws : Separate p (w :: ws))
    (hw : w.isUnchanged t p = true) : Done p (w :: ws) t u where
  wellFormed := h.wellFormed
  directories := h.directories
  unchanged := List.forall_mem_cons.2 ⟨h.isUnchanged ht hws hw, h.unchanged⟩
  old := fun hq => h.old fun v hv => hq v (List.mem_cons_of_mem w hv)
  kept := fun hq => h.kept fun v hv => hq v (List.mem_cons_of_mem w hv)

theorem Done.cons_written {v : FileTree} (hw : w.Done p n t v) (h : Done p ws v u)
    (hws : Separate p (w :: ws)) : Done p (w :: ws) t u where
  wellFormed := h.wellFormed
  directories := fun q hq => h.directories q (hw.directories q hq)
  unchanged := by
    refine List.forall_mem_cons.2 ⟨?_, h.unchanged⟩
    apply h.isUnchanged hw.wellFormed hws
    rw [Write.isUnchanged_iff, FileTree.readText_iff_of_isDirect
      (hws.direct w List.mem_cons_self) hw.wellFormed]
    exact ⟨hw.accepted, hw.ends, hw.written⟩
  old := by
    intro q c hq hfile
    obtain ⟨hwq, hrest⟩ := List.forall_mem_cons.1 hq
    exact ((hw.others hwq.symm).1 (h.old hrest hfile)).2
  kept := by
    intro q c hq hscratch hfile
    obtain ⟨hwq, hrest⟩ := List.forall_mem_cons.1 hq
    refine h.kept hrest hscratch ((hw.others hwq.symm).2 ⟨?_, hfile⟩)
    exact fun heq => hscratch ⟨_, _, heq⟩

/-- The run lemma: the paths written are those of the writes that were needed at the start. -/
theorem done_of_executeFrom {paths : List Path} (ht : t.WellFormed) (hws : Separate p ws)
    (h : executeFrom p n t ws = (u, .ok paths)) :
    Done p ws t u ∧ paths = (pending t p ws).map Write.path := by
  induction ws generalizing n t paths with
  | nil =>
    cases h
    refine ⟨⟨ht, fun q hq => hq, by simp, ?_, ?_⟩, rfl⟩
    · exact fun _ hfile => hfile
    · exact fun _ _ hfile => hfile
  | cons w ws ih =>
    unfold executeFrom at h
    split at h
    · rename_i hunchanged
      obtain ⟨hdone, hpaths⟩ := ih ht hws.tail h
      refine ⟨hdone.cons_unchanged ht hws hunchanged, ?_⟩
      rw [hpaths, pending, pending, List.filter_cons_of_neg (by simp [hunchanged])]
    · rename_i hchanged
      split at h
      · cases h
      · rename_i v hexecute
        have hw := Write.done_of_execute ht hexecute
        split at h
        · rename_i u' rest hrest
          cases h
          obtain ⟨hdone, hpaths⟩ := ih hw.wellFormed hws.tail hrest
          refine ⟨Done.cons_written hw hdone hws, ?_⟩
          have hpending : pending v p ws = pending t p ws := by
            apply List.filter_congr
            intro v' hv'
            rw [isUnchanged_of_done hw ht hws hv']
          rw [hpaths, hpending, pending, pending, List.filter_cons_of_pos (by simp [hchanged]),
            List.map_cons]
        · cases h

theorem pending_eq_nil_iff : pending t p ws = [] ↔ ∀ w ∈ ws, w.isUnchanged t p = true := by
  simp [pending, List.filter_eq_nil_iff]

/-- A run writes exactly what was pending before it, whatever number its scratch files start from.
Afterwards every target holds its content, the
other files are those of before, no scratch file is left, and nothing is pending. -/
theorem execute_eq_pending {paths : List Path} (ht : t.WellFormed) (hws : Separate p ws)
    (hunused : p.Unused t) (h : executeFrom p n t ws = (u, .ok paths)) :
    paths = (pending t p ws).map Write.path ∧
      (∀ w ∈ ws, u.readText p.cwd w.path = .ok w.content) ∧
      (∀ q c, (∀ w ∈ ws, w.place p ≠ q) →
        (u.get? q = some (.file c) ↔ t.get? q = some (.file c))) ∧
      p.Unused u ∧ pending u p ws = [] := by
  obtain ⟨hdone, hpaths⟩ := done_of_executeFrom ht hws h
  refine ⟨hpaths, fun w hw => Write.isUnchanged_iff.1 (hdone.unchanged w hw), ?_, ?_, ?_⟩
  · intro q c hq
    refine ⟨hdone.old hq, fun hfile => hdone.kept hq ?_ hfile⟩
    exact fun hnamed => hunused q c hnamed hfile
  · intro q c hnamed hfile
    apply hunused q c hnamed
    refine hdone.old (fun w hw heq => ?_) hfile
    exact hws.not_isScratch hw (heq ▸ hnamed)
  · exact pending_eq_nil_iff.2 hdone.unchanged

/-- One target is up to date, one is out of date, and one is missing together with its
directory. -/
theorem execute_eq_pending_mixed :
    let t : FileTree := ⟨[(["w".toList], .directory),
      (["w".toList, "a.js".toList], .file (.text "a".toList)),
      (["w".toList, "b.js".toList], .file (.text "old".toList)),
      (["w".toList, "c.bin".toList], .file (.binary [255]))]⟩
    let p : Session := ⟨["w".toList], 7⟩
    let ws : Transaction := [⟨⟨"/w/a.js".toList⟩, "a".toList⟩, ⟨⟨"/w//b.js".toList⟩, "b".toList⟩,
      ⟨⟨"/w/gen/./d.js".toList⟩, "d".toList⟩]
    ∃ u, execute t p ws = (u, .ok [⟨"/w//b.js".toList⟩, ⟨"/w/gen/./d.js".toList⟩]) ∧
      (pending t p ws).map Write.path = [⟨"/w//b.js".toList⟩, ⟨"/w/gen/./d.js".toList⟩] ∧
      u.readText p.cwd ⟨"/w/gen/./d.js".toList⟩ = .ok "d".toList ∧
      u.get? ["w".toList, "c.bin".toList] = some (.file (.binary [255])) ∧
      pending u p ws = [] := by
  intro t p ws
  have hstem : ∀ m ∈ t.nodes, ∀ n ∈ m.1.getLast?, ¬ ".mdtangle-tmp-".toList <+: n := by decide
  have hnames : ∀ w ∈ ws, ∀ n ∈ w.path.fileName?, ¬ ".mdtangle-tmp-".toList <+: n := by decide
  have hws : Separate p ws :=
    ⟨by decide, by decide, fun w hw => p.ne_some_scratch (hnames w hw)⟩
  obtain ⟨u, hu⟩ : ∃ u,
      execute t p ws = (u, .ok [⟨"/w//b.js".toList⟩, ⟨"/w/gen/./d.js".toList⟩]) :=
    ⟨(execute t p ws).1, by decide +kernel⟩
  obtain ⟨hpaths, hread, hothers, _, hpending⟩ := execute_eq_pending
    (FileTree.wellFormed_of_nodes (by decide)) hws (.of_nodes hstem) hu
  have hd := hread ⟨⟨"/w/gen/./d.js".toList⟩, "d".toList⟩ (by decide)
  refine ⟨u, hu, hpaths.symm, hd, ?_, hpending⟩
  exact (hothers ["w".toList, "c.bin".toList] (.binary [255]) (by decide)).2 rfl

end Transaction

end Literate
