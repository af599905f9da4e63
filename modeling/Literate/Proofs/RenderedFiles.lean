import Literate.Command.Run
import Literate.Proofs.ChildGraph
import Literate.Proofs.OutputPaths
import Literate.Proofs.Passes
import Literate.Proofs.Trimming

/-!
# The ways to render a store

The files of a store are rendered by name when their writes are queued, one by one when all of them
are asked for, and singly when one is displayed. In a store built from documents every file has a
name of its own, so all ways render the same texts, in the order of creation, and they fail with the
same fault, that of the first file that cannot be rendered.
-/

namespace Literate

namespace Store
variable {s s' : Store}

theorem run_of_addAll {bs : List Block} (h : s.addAll bs = (s', none)) :
    s.run (bs.map Call.add) = s' := by
  induction bs generalizing s with
  | nil =>
    cases h
    rfl
  | cons b bs ih =>
    rcases s.refused_or_added b with ⟨e, hb⟩ | ⟨s₁, hb⟩
    · rw [addAll_cons_of_refused hb] at h
      cases h
    · rw [addAll_cons_of_added hb] at h
      rw [List.map_cons, run, apply, hb]
      exact ih h

theorem putText_of_not_mem {texts : List (Text × Text)} {entry : Text × Text}
    (h : entry.1 ∉ texts.map Prod.fst) : putText texts entry = texts ++ [entry] := by
  induction texts with
  | nil => rfl
  | cons known texts ih =>
    rw [List.map_cons] at h
    have hne : known.1 ≠ entry.1 := (List.ne_of_not_mem_cons h).symm
    rw [putText, if_neg hne, ih (List.not_mem_of_not_mem_cons h), List.cons_append]

/-- Texts under different names are all kept. -/
theorem foldl_putText {texts entries : List (Text × Text)}
    (h : ((texts ++ entries).map Prod.fst).Nodup) :
    entries.foldl putText texts = texts ++ entries := by
  induction entries generalizing texts with
  | nil => rw [List.foldl_nil, List.append_nil]
  | cons entry entries ih =>
    rw [List.append_cons] at h
    have hnew : entry.1 ∉ texts.map Prod.fst := by
      intro hmem
      rw [List.map_append, List.map_append] at h
      have hdisjoint := (List.nodup_append.1 (List.nodup_append.1 h).1).2.2
      exact hdisjoint _ hmem _ List.mem_cons_self rfl
    rw [List.foldl_cons, putText_of_not_mem hnew, ih h, ← List.append_cons]

theorem render_name {f : CodeFile} (hnames : s.names.Nodup) (hf : f ∈ s.files) :
    s.render f.name = f.render := by
  rw [render, file?_of_mem hnames hf]

theorem renderEach_eq_mapM (hnames : s.names.Nodup) :
    s.renderEach = s.names.mapM fun name => (s.render name).map fun text => (name, text) := by
  rw [renderEach, names, List.mapM_map]
  -- looked up under its own name, a file is found again
  apply mapM_congr
  intro f hf
  rw [Function.comp_apply, render_name hnames hf]

theorem renderEach_eq_ok_iff (hnames : s.names.Nodup) {texts : List (Text × Text)} :
    s.renderEach = .ok texts ↔
      List.Forall₂ (fun name entry => entry.1 = name ∧ s.render name = .ok entry.2) s.names texts := by
  have hentry : ∀ name (entry : Text × Text),
      ((s.render name).map fun text => (name, text)) = .ok entry ↔
        entry.1 = name ∧ s.render name = .ok entry.2 := by
    intro name entry
    rw [map_eq_ok_iff]
    constructor
    · intro h
      obtain ⟨text, htext, rfl⟩ := h
      exact ⟨rfl, htext⟩
    · intro h
      obtain ⟨rfl, htext⟩ := h
      exact ⟨entry.2, htext, rfl⟩
  rw [renderEach_eq_mapM hnames, mapM_eq_ok_iff]
  simp only [hentry]

theorem renderEach_eq_error_iff (hnames : s.names.Nodup) {e : Fault} :
    s.renderEach = .error e ↔ FirstError s.render s.names e := by
  rw [renderEach_eq_mapM hnames, mapM_eq_error_iff, firstError_map_iff]

theorem exists_renderEach_eq_ok_iff (hnames : s.names.Nodup) :
    (∃ texts, s.renderEach = .ok texts) ↔ ∀ name ∈ s.names, ∃ t, s.render name = .ok t := by
  rw [renderEach_eq_mapM hnames, exists_mapM_eq_ok_iff]
  simp only [exists_map_eq_ok_iff]

/-- With different names no text takes the place of another. -/
theorem renderAll_eq_renderEach (hnames : s.names.Nodup) : s.renderAll = s.renderEach := by
  rw [renderAll]
  cases htexts : s.renderEach with
  | error e => rfl
  | ok texts =>
    have hkeys : s.names.map id = texts.map Prod.fst := by
      apply map_eq_map_of_forall₂
      apply ((renderEach_eq_ok_iff hnames).1 htexts).imp
      intro name entry h
      exact h.1.symm
    rw [List.map_id] at hkeys
    have hkept : texts.foldl putText [] = texts := foldl_putText (hkeys ▸ hnames)
    rw [Except.map, hkept]

end Store

namespace Project
variable {pr : Project} {s s' : Store} {paths : List Path}

/-- Documents only ever add blocks, so their store is a grouping. -/
theorem nodup_names_of_collect (h : pr.collect paths = .ok s) : s.names.Nodup := by
  rw [← Store.run_of_addAll (collectInto_eq_ok_iff.1 h).2, Settings.emptyStore, Store.run_empty]
  exact Store.nodup_names_grouping

theorem tangle_of_collect (h : pr.collect paths = .ok s) : pr.tangle paths = pr.queue s := by
  rw [tangle, h]

theorem queue_eq_ok_iff {ws : Transaction} :
    pr.queue s = .ok ws ↔ List.Forall₂ (fun name w =>
      w.path = pr.outputPath name ∧ pr.renderOutput s name = .ok w.content) s.names ws := by
  have hwrite : ∀ name w, ((pr.renderOutput s name).map (Write.mk (pr.outputPath name))) = .ok w ↔
      w.path = pr.outputPath name ∧ pr.renderOutput s name = .ok w.content := by
    intro name w
    rw [map_eq_ok_iff]
    constructor
    · intro h
      obtain ⟨content, hcontent, rfl⟩ := h
      exact ⟨rfl, hcontent⟩
    · intro h
      obtain ⟨hpath, hcontent⟩ := h
      exact ⟨w.content, hcontent, by rw [← hpath]⟩
  rw [queue, queueNames_eq_mapM, mapM_eq_ok_iff]
  simp only [hwrite]

theorem queue_eq_error_iff {e : Fault} : pr.queue s = .error e ↔ FirstError s.render s.names e := by
  rw [queue, queueNames_eq_mapM, mapM_eq_error_iff, firstError_map_iff]
  exact firstError_map_iff

theorem exists_queue_eq_ok_iff :
    (∃ ws, pr.queue s = .ok ws) ↔ ∀ name ∈ s.names, ∃ t, s.render name = .ok t := by
  rw [queue, queueNames_eq_mapM, exists_mapM_eq_ok_iff]
  simp only [renderOutput, exists_map_eq_ok_iff]

theorem renderOutput_of_trimOutput {name t : Text} (htrim : pr.settings.trimOutput = true)
    (h : s.render name = .ok t) :
    ∃ kept space, t = kept ++ space ∧ (∀ c ∈ space, isWhite c = true) ∧
      (∀ c ∈ kept.getLast?, isWhite c = false) ∧
      pr.renderOutput s name = .ok (kept ++ ['\n']) := by
  obtain ⟨space, ht, hspace⟩ := Text.exists_eq_trimEnd_append t
  refine ⟨Text.trimEnd t, space, ht, hspace, fun c => Text.isWhite_of_getLast?_trimEnd, ?_⟩
  rw [renderOutput, h, htrim]
  rfl

end Project

namespace Command

/-- What a command prints, or why it fails. -/
def Result.answer (r : Result) : Except Fault Text :=
  match r.fault with
  | none => .ok r.stdout
  | some e => .error e

/-- Displaying a file prints what would be written, or fails as writing would. -/
theorem answer_display {pr : Project} {paths : List Path} {s : Store}
    (hpaths : pr.sourceFiles = .ok paths) (h : pr.collect paths = .ok s) (t : FileTree)
    (name : Text) : (display t pr name).answer = pr.renderOutput s name := by
  have hwhole : wholeStore pr = (.ok s, pr.collectReport paths) := by
    rw [wholeStore, hpaths, ← h]
  rw [display, hwhole]
  dsimp only
  cases pr.renderOutput s name <;> rfl

end Command

namespace Project
variable {pr : Project} {s : Store} {paths : List Path}

/-- All ways to render the files of a store agree. Queuing the writes and rendering all files both
succeed exactly when each file renders, and otherwise fail with the fault of the first file that
does not. On success they give one write and one text for each name, in order. A trimmed content
is the text without the white space at its end, and one line feed. Displaying a file prints the
content that is written. -/
theorem renderings_agree (h : pr.collect paths = .ok s) :
    s.names.Nodup ∧
      ((∃ ws, pr.tangle paths = .ok ws) ↔ ∀ name ∈ s.names, ∃ t, s.render name = .ok t) ∧
      ((∃ texts, s.renderAll = .ok texts) ↔ ∀ name ∈ s.names, ∃ t, s.render name = .ok t) ∧
      (∀ e, pr.tangle paths = .error e ↔ FirstError s.render s.names e) ∧
      (∀ e, s.renderAll = .error e ↔ FirstError s.render s.names e) ∧
      (∀ ws, pr.tangle paths = .ok ws ↔ List.Forall₂ (fun name w =>
        w.path = pr.outputPath name ∧ pr.renderOutput s name = .ok w.content) s.names ws) ∧
      (∀ texts, s.renderAll = .ok texts ↔ List.Forall₂ (fun name entry =>
        entry.1 = name ∧ s.render name = .ok entry.2) s.names texts) ∧
      (pr.settings.trimOutput = true → ∀ name t, s.render name = .ok t →
        ∃ kept space, t = kept ++ space ∧ (∀ c ∈ space, isWhite c = true) ∧
          (∀ c ∈ kept.getLast?, isWhite c = false) ∧
          pr.renderOutput s name = .ok (kept ++ ['\n'])) ∧
      (pr.sourceFiles = .ok paths → ∀ t name,
        (Command.display t pr name).answer = pr.renderOutput s name) := by
  have hnames := nodup_names_of_collect h
  rw [tangle_of_collect h, Store.renderAll_eq_renderEach hnames]
  refine ⟨hnames, exists_queue_eq_ok_iff, Store.exists_renderEach_eq_ok_iff hnames,
    fun e => queue_eq_error_iff, fun e => Store.renderEach_eq_error_iff hnames,
    fun ws => queue_eq_ok_iff, fun texts => Store.renderEach_eq_ok_iff hnames,
    fun htrim name t => renderOutput_of_trimOutput htrim, fun hpaths t name => ?_⟩
  exact Command.answer_display hpaths h t name

/-- Two files from one document, the second of them with white space at its end. -/
theorem renderings_agree_two_files :
    let doc : Text := "```js > a.js\n[<<x>>]\n```\n```js > b.js\ny \n\n```\n```js > a.js#x\n1\n```".toList
    let pr : Project := ⟨.default, ⟨"/project".toList⟩,
      (MemoryFiles.empty.insert ⟨"d.md".toList⟩ doc).files⟩
    let a : Text := "a.js".toList
    let b : Text := "b.js".toList
    ∃ s, pr.collect [⟨"d.md".toList⟩] = .ok s ∧
      s.renderAll = .ok [(a, "[1]".toList), (b, "y \n".toList)] ∧
      pr.tangle [⟨"d.md".toList⟩] = .ok [⟨⟨"/project/a.js".toList⟩, "[1]\n".toList⟩,
        ⟨⟨"/project/b.js".toList⟩, "y\n".toList⟩] := by
  intro doc pr a b
  let s : Store := ⟨.autoCreate, defaultFile, [
    ⟨a, [⟨.root, a, ["[<<x>>]".toList], [.named ['x']]⟩, ⟨.named ['x'], a, [['1']], []⟩]⟩,
    ⟨b, [⟨.root, b, ["y \n".toList], []⟩]⟩]⟩
  have hcollect : pr.collect [⟨"d.md".toList⟩] = .ok s := by decide +kernel
  obtain ⟨_, _, _, _, _, htangle, hall, _⟩ := renderings_agree hcollect
  refine ⟨s, hcollect, (hall _).2 ?_, (htangle _).2 ?_⟩
  · exact .cons ⟨rfl, by decide +kernel⟩ (.cons ⟨rfl, by decide +kernel⟩ .nil)
  · exact .cons ⟨by decide +kernel, by decide +kernel⟩
      (.cons ⟨by decide +kernel, by decide +kernel⟩ .nil)

end Project

end Literate
