import Literate.Proofs.Discovery
import Literate.Proofs.Execution
import Literate.Proofs.Obstacles
import Literate.Proofs.OutputPaths

/-!
# Tangling twice

A pass reads its documents and writes its targets. If no target is a document, a second pass reads
the same texts and so queues the same writes, and finds every one of them done. This needs that no
target has the name of a scratch file of the run: such a target is overwritten and moved away by a
later write.
-/

namespace Literate

namespace FileTree
variable {t : FileTree} {cwd : Place} {p : Path} {c : Content} {s : Text}

theorem locate_of_readText (ht : t.WellFormed) (h : t.readText cwd p = .ok s) :
    t.locate cwd p = .ok (destination cwd p) := by
  rw [readText_eq_ok_iff, node?_eq_file_iff ht] at h
  obtain ⟨hrefuse, ⟨ss, n, hends, hfits, hpasses⟩, hget⟩ := h
  apply locate_of_endsIn hends hrefuse hpasses hfits
  rw [hget]
  rfl

end FileTree

namespace Transaction
variable {t : FileTree} {p : Session} {n : Nat} {ws : Transaction}

theorem executeFrom_of_unchanged (h : ∀ w ∈ ws, w.isUnchanged t p = true) :
    executeFrom p n t ws = (t, .ok []) := by
  induction ws with
  | nil => rfl
  | cons w ws ih =>
    obtain ⟨hw, hws⟩ := List.forall_mem_cons.1 h
    rw [executeFrom, if_pos hw, ih hws]

end Transaction

namespace Project
variable {pr : Project} {settings : Settings} {base d : Path} {p : Session} {t u : FileTree}
  {s : Store} {paths docs : List Path} {ws : Transaction} {text : Text} {n : Nat}

section Reading
variable (hread : ∀ d ∈ paths, t.readText p.cwd (resolve base d) =
  u.readText p.cwd (resolve base d))
include hread

theorem collectInto_congr (s : Store) :
    (onTree settings base p t).collectInto s paths =
      (onTree settings base p u).collectInto s paths := by
  induction paths generalizing s with
  | nil => rfl
  | cons d paths ih =>
    obtain ⟨hd, hpaths⟩ := List.forall_mem_cons.1 hread
    have hload : (onTree settings base p t).loadDocument d =
        (onTree settings base p u).loadDocument d := by
      have hfiles : (onTree settings base p t).files.read d =
          (onTree settings base p u).files.read d := hd
      rw [loadDocument, loadDocument, hfiles]
      rfl
    rw [collectInto, collectInto, hload]
    split
    · rfl
    · split
      · rfl
      · exact ih hpaths _

end Reading

/-- Rendering reads no files. -/
theorem queueNames_onTree (s : Store) (names : List Text) :
    (onTree settings base p t).queueNames s names =
      (onTree settings base p u).queueNames s names := by
  rw [queueNames_eq_mapM, queueNames_eq_mapM]
  rfl

theorem tangle_congr (hread : ∀ d ∈ paths, t.readText p.cwd (resolve base d) =
      u.readText p.cwd (resolve base d)) :
    (onTree settings base p t).tangle paths = (onTree settings base p u).tangle paths := by
  have hcollect : (onTree settings base p t).collect paths =
      (onTree settings base p u).collect paths := collectInto_congr hread _
  unfold tangle
  rw [hcollect]
  split
  · rfl
  · rename_i s _
    exact queueNames_onTree s s.names

theorem exists_read_of_tangle (h : pr.tangle paths = .ok ws) (hd : d ∈ paths) :
    ∃ text, pr.files.read d = .ok text := by
  rcases pr.tangle_cases paths with ⟨e, he, _⟩ | ⟨_, _, hfree⟩
  · rw [h] at he
    cases he
  · cases hread : pr.files.read d with
    | error e => exact absurd (.document hd (.unreadable hread)) (hfree (.access e))
    | ok text => exact ⟨text, rfl⟩

/-- With an absolute base directory all targets are absolute. -/
theorem isAbsolute_of_tangle (hbase : pr.base.isAbsolute = true) (h : pr.tangle paths = .ok ws)
    {w : Write} (hw : w ∈ ws) : w.path.isAbsolute = true := by
  unfold tangle at h
  split at h
  · cases h
  · rename_i s hs
    have hmem : w.path ∈ ws.map Write.path := List.mem_map_of_mem hw
    rw [map_path_of_queueNames h] at hmem
    obtain ⟨name, _, hname⟩ := List.mem_map.1 hmem
    have hdir : pr.outputDirectory.isAbsolute = true := by
      unfold outputDirectory
      split
      · exact Path.isAbsolute_join_left hbase _
      · exact hbase
    rw [← hname, outputPath_eq_join]
    exact Path.isAbsolute_join_left hdir _

/-- A source file leads to a file of the tree. -/
theorem exists_file_of_mem_sourceFiles (ht : t.WellFormed) (hbase : base.isAbsolute = true)
    (hdocs : (onTree settings base p t).sourceFiles = .ok docs) (hd : d ∈ docs) :
    ∃ c, t.get? (FileTree.destination p.cwd (resolve base d)) = some (.file c) := by
  obtain ⟨_, pattern, _, found, hfound, hmem⟩ := exists_of_mem_sourceFiles hdocs hd
  obtain ⟨route, q, _, hreaches, hfile, hq⟩ := FileTree.exists_of_mem_glob hbase hfound hmem
  obtain ⟨c, hc⟩ := FileTree.isFile_iff.1 hfile
  obtain ⟨_, _, hget⟩ := (FileTree.node?_eq_file_iff ht).1 hc
  have hcomponents : (resolve base d).components = q.components := by
    rw [resolve_eq_join, ← hq]
    exact Path.components_join_relativeTo hbase (hreaches.isAbsolute rfl)
  refine ⟨c, ?_⟩
  rw [← FileTree.foldl_components, hcomponents, FileTree.foldl_components]
  exact hget

/-- A document that is no target is read again as it was. -/
theorem readText_again (ht : t.WellFormed) (hbase : base.isAbsolute = true)
    (hws : Transaction.Separate p ws) (hdone : Transaction.Done p ws t u)
    (hdocs : (onTree settings base p u).sourceFiles = .ok docs) (hd : d ∈ docs)
    (hapart : ∀ w ∈ ws, t.locate p.cwd w.path ≠ t.locate p.cwd (resolve base d))
    (hread : t.readText p.cwd (resolve base d) = .ok text) :
    u.readText p.cwd (resolve base d) = .ok text := by
  have hplace : ∀ w ∈ ws, w.place p ≠ FileTree.destination p.cwd (resolve base d) := by
    intro w hw heq
    apply hapart w hw
    have hdirect := hws.direct w hw
    have hwritten := Write.isUnchanged_iff.1 (hdone.unchanged w hw)
    rw [FileTree.readText_iff_of_isDirect hdirect hdone.wellFormed] at hwritten
    have hnode := FileTree.readText_eq_ok_iff.1 hread
    have hbefore : t.readText p.cwd w.path = .ok text := by
      rw [FileTree.readText_iff_of_isDirect hdirect ht]
      refine ⟨hwritten.1, hwritten.2.1, ?_⟩
      rw [← ((FileTree.node?_eq_file_iff ht).1 hnode).2.2, ← heq]
      rfl
    rw [FileTree.locate_of_readText ht hbefore, FileTree.locate_of_readText ht hread, ← heq]
    rfl
  -- The document is still found, and a file that is no target is as old as the run.
  obtain ⟨c, hc⟩ := exists_file_of_mem_sourceFiles hdone.wellFormed hbase hdocs hd
  have hold := hdone.old hplace hc
  exact FileTree.readText_of_kept ht hdone.wellFormed hdone.directories hread (hc.trans hold.symm)

/-- Tangling is idempotent: after a pass whose targets are none of its documents and not named like
its scratch files, a second pass over the same documents queues the same writes, and none of them is
left to do, whatever numbers the scratch files of the two runs start from. -/
theorem tangleAll_again (ht : t.WellFormed) (hbase : base.isAbsolute = true)
    (hdocs : (onTree settings base p t).sourceFiles = .ok docs)
    (htangle : (onTree settings base p t).tangleAll = .ok ws)
    (hup : ∀ w ∈ ws, .parent ∉ w.path.components)
    (hdifferent : ws.Pairwise fun w w' => w.path.same w'.path = false)
    (hnamed : ∀ w ∈ ws, ∀ m, w.path.fileName? ≠ some (p.scratch m))
    (hrun : Transaction.executeFrom p n t ws = (u, .ok paths))
    (hdocs' : (onTree settings base p u).sourceFiles = .ok docs)
    (hapart : ∀ d ∈ docs, ∀ w ∈ ws,
      t.locate p.cwd w.path ≠ t.locate p.cwd (resolve base d)) :
    (onTree settings base p u).tangleAll = .ok ws ∧
      (∀ w ∈ ws, w.isUnchanged u p = true) ∧ Transaction.describe u p ws = [] ∧
      ∀ m, Transaction.executeFrom p m u ws = (u, .ok []) := by
  have hpass : (onTree settings base p t).tangle docs = .ok ws := by
    rw [← htangle, tangleAll, hdocs]
  have hws : Transaction.Separate p ws :=
    ⟨fun w hw => ⟨isAbsolute_of_tangle hbase hpass hw, hup w hw⟩, hdifferent, hnamed⟩
  obtain ⟨hdone, _⟩ := Transaction.done_of_executeFrom ht hws hrun
  have hread : ∀ d ∈ docs, u.readText p.cwd (resolve base d) =
      t.readText p.cwd (resolve base d) := by
    intro d hd
    obtain ⟨text, htext⟩ := exists_read_of_tangle hpass hd
    have htext : t.readText p.cwd (resolve base d) = .ok text := htext
    rw [htext]
    exact readText_again ht hbase hws hdone hdocs' hd (hapart d hd) htext
  refine ⟨?_, hdone.unchanged, ?_, fun m => Transaction.executeFrom_of_unchanged hdone.unchanged⟩
  · rw [tangleAll, hdocs']
    exact (tangle_congr hread).trans hpass
  · rw [Transaction.describe, Transaction.pending_eq_nil_iff.2 hdone.unchanged]
    rfl

/-- The pass makes one directory and two files, one of them beside its document. -/
theorem tangleAll_again_two_files :
    let t : FileTree := ⟨[(["w".toList], .directory), (["w".toList, "doc".toList], .directory),
      (["w".toList, "doc".toList, "a.md".toList], .file (.text
        "```js > src/x.js\nx\n```\n\n```js > doc/y.js\ny\n```\n".toList))]⟩
    let p : Session := ⟨["w".toList], 7⟩
    let base : Path := ⟨"/w".toList⟩
    let ws : Transaction := [⟨⟨"/w/src/x.js".toList⟩, "x\n".toList⟩,
      ⟨⟨"/w/doc/y.js".toList⟩, "y\n".toList⟩]
    (onTree .default base p t).tangleAll = .ok ws ∧
      ∃ u, Transaction.execute t p ws =
          (u, .ok [⟨"/w/src/x.js".toList⟩, ⟨"/w/doc/y.js".toList⟩]) ∧
        (onTree .default base p u).tangleAll = .ok ws ∧
        Transaction.execute u p ws = (u, .ok []) := by
  intro t p base ws
  have hdocs : (onTree .default base p t).sourceFiles = .ok [⟨"doc/a.md".toList⟩] := by
    decide +kernel
  have htangle : (onTree .default base p t).tangleAll = .ok ws := by decide +kernel
  have hnames : ∀ w ∈ ws, ∀ n ∈ w.path.fileName?, ¬ ".mdtangle-tmp-".toList <+: n := by decide
  obtain ⟨u, hrun, hdocs'⟩ : ∃ u, Transaction.execute t p ws =
        (u, .ok [⟨"/w/src/x.js".toList⟩, ⟨"/w/doc/y.js".toList⟩]) ∧
      (onTree .default base p u).sourceFiles = .ok [⟨"doc/a.md".toList⟩] :=
    ⟨(Transaction.execute t p ws).1, by decide +kernel, by decide +kernel⟩
  obtain ⟨htwice, _, _, hagain⟩ := tangleAll_again (FileTree.wellFormed_of_nodes (by decide))
    (by decide) hdocs htangle (by decide) (by decide)
    (fun w hw => p.ne_some_scratch (hnames w hw)) hrun hdocs' (by decide +kernel)
  exact ⟨htangle, u, hrun, htwice, hagain 0⟩

/-- Without the condition on names a pass is not idempotent. The second write goes through a scratch
file that is the first target, and so the first target is gone after the run. -/
theorem tangleAll_again_lost :
    let t : FileTree := ⟨[(["w".toList], .directory),
      (["w".toList, "a.md".toList], .file (.text
        "```js > .mdtangle-tmp-7-1\nx\n```\n\n```js > b.js\ny\n```\n".toList))]⟩
    let p : Session := ⟨["w".toList], 7⟩
    let base : Path := ⟨"/w".toList⟩
    let docs : List Path := [⟨"a.md".toList⟩]
    let ws : Transaction := [⟨⟨"/w/.mdtangle-tmp-7-1".toList⟩, "x\n".toList⟩,
      ⟨⟨"/w/b.js".toList⟩, "y\n".toList⟩]
    t.WellFormed ∧ base.isAbsolute = true ∧
      (onTree .default base p t).sourceFiles = .ok docs ∧
      (onTree .default base p t).tangleAll = .ok ws ∧
      (∀ w ∈ ws, .parent ∉ w.path.components) ∧
      (ws.Pairwise fun w w' => w.path.same w'.path = false) ∧
      (∀ d ∈ docs, ∀ w ∈ ws, t.locate p.cwd w.path ≠ t.locate p.cwd (resolve base d)) ∧
      ∃ u, Transaction.execute t p ws = (u, .ok (ws.map Write.path)) ∧
        (onTree .default base p u).sourceFiles = .ok docs ∧
        (onTree .default base p u).tangleAll = .ok ws ∧
        Transaction.describe u p ws = ["create /w/.mdtangle-tmp-7-1".toList] := by
  intro t p base docs ws
  let u : FileTree := ⟨t.nodes ++ [(["w".toList, "b.js".toList], .file (.text "y\n".toList))]⟩
  refine ⟨FileTree.wellFormed_of_nodes (by decide), by decide, by decide +kernel,
    by decide +kernel, by decide, by decide, by decide +kernel, u, ?_, ?_, ?_, ?_⟩
  · decide +kernel
  · decide +kernel
  · decide +kernel
  · decide +kernel

end Project

end Literate
