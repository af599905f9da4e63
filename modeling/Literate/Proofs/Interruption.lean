import Literate.Proofs.Execution
import Literate.Proofs.Sequences
import Mathlib.Logic.Function.Basic

/-!
# Transactions that fail

A file is replaced as a whole or not at all: if it cannot be moved to its target, the scratch file
is removed again, and it can be, since whatever led to it still does. So a write that fails adds at
most directories, and a transaction that fails leaves the files that its writes up to the failing
one make of the files before.
-/

namespace Literate

theorem Path.EndsIn.fileName? {p : Path} {ss : List Text} {n : Text} (h : p.EndsIn ss n) :
    p.fileName? = some n := by
  obtain ⟨cs, hcs, _⟩ := h.exists_components
  rw [Path.fileName?, hcs, List.getLast?_concat]

namespace FileTree
variable {t u : FileTree} {cwd place place' q : Place} {p : Path} {ss : List Text} {s : Text}
  {content c : Content} {e : AccessError}

/-- The content of the file at a place. -/
def content? (t : FileTree) (q : Place) : Option Content :=
  match t.get? q with
  | some (.file c) => some c
  | _ => none

theorem content?_eq_some_iff : t.content? q = some c ↔ t.get? q = some (.file c) := by
  unfold content?
  split
  · rename_i d hd
    simp [hd]
  · rename_i hnone
    simpa using hnone c

theorem Grows.content?_eq (h : t.Grows u) : u.content? = t.content? := by
  funext q
  ext c
  rw [content?_eq_some_iff, content?_eq_some_iff, h.file_iff]

section Kept
variable (hdirs : ∀ q, t.get? q = some .directory → u.get? q = some .directory)
include hdirs

theorem walk_of_kept (h : t.walk place ss = .ok place') (hdir : t.get? place' = some .directory) :
    u.walk place ss = .ok place' := by
  have hpasses := passes_of_walk h hdir
  rw [walk_of_passes (hpasses.mono hdirs), ← walk_of_passes hpasses, h]

theorem beforeLast_of_kept {last : Place × Text × Bool} (h : t.beforeLast cwd p = .ok last) :
    u.beforeLast cwd p = .ok last := by
  unfold beforeLast at h ⊢
  split at h
  · cases h
  · simp only at h ⊢
    split at h
    · cases h
    · rename_i dir hwalk
      -- the empty piece at the end of the walk stays in a directory
      obtain ⟨q, hq, hlast⟩ := exists_walk_of_append hwalk
      have hdir := directory_of_walk_cons hlast
      rw [walk_cons_nil hdir] at hlast
      cases hlast
      rw [walk_of_kept hdirs hwalk hdir]
      exact h

end Kept

/-- A file that has just been created can be removed again. -/
theorem removeFile_of_createFile (h : t.createFile cwd p content = .ok u) :
    t.get? (destination cwd p) ≠ some .directory ∧ destination cwd p ≠ [] ∧
      u = t.put (destination cwd p) (.file content) ∧
      u.removeFile cwd p = .ok (u.erase (destination cwd p)) := by
  unfold createFile at h
  split at h
  · cases h
  · rename_i dir name trailing hbefore
    split at h
    · cases h
    · rename_i hname
      obtain ⟨hordinary, htrailing⟩ : isOrdinary name = true ∧ trailing = false := by
        simpa using hname
      split at h
      · cases h
      · rename_i hlimit
        split at h
        · cases h
        · rename_i hnode
          cases h
          have hplace := (leadsInto_of_beforeLast hbefore hordinary).1.destination_eq
          have hget : ∀ q, (t.put (dir ++ [name]) (.file content)).get? q =
              if q = dir ++ [name] then some (.file content) else t.get? q :=
            get?_put (List.concat_ne_nil name dir)
          have hdirs : ∀ q, t.get? q = some .directory →
              (t.put (dir ++ [name]) (.file content)).get? q = some .directory := by
            intro q hq
            rw [hget, if_neg, hq]
            intro heq
            exact hnode (heq ▸ hq)
          rw [hplace]
          refine ⟨hnode, List.concat_ne_nil name dir, rfl, ?_⟩
          simp only [removeFile, lastStep, beforeLast_of_kept hdirs hbefore, if_neg hlimit,
            hordinary, hget, htrailing]
          rfl

/-- A file that cannot be replaced leaves the tree as it is, if nothing stands where the new content
is written first. -/
theorem get?_of_replaceFile_error {scratch : Text} (hslash : '/' ∉ scratch)
    (hproper : IsProper scratch) (hfree : ∀ dir c, t.get? (dir ++ [scratch]) ≠ some (.file c))
    (h : t.replaceFile cwd scratch p s = (u, some e)) (q : Place) : u.get? q = t.get? q := by
  unfold replaceFile at h
  simp only at h
  split at h
  · cases h
    rfl
  · rename_i written hcreate
    split at h
    · cases h
    · obtain ⟨hnode, hne, hwritten, hremove⟩ := removeFile_of_createFile hcreate
      rw [hremove] at h
      cases h
      have hnone : t.get? (destination cwd ((p.parent?.getD ⟨['.']⟩).join ⟨scratch⟩)) = none := by
        rw [destination_join_name hslash hproper] at hnode ⊢
        cases hget : t.get? (destination cwd (p.parent?.getD ⟨['.']⟩) ++ [scratch]) with
        | none => rfl
        | some node =>
          cases node with
          | directory => exact absurd hget hnode
          | file c => exact absurd hget (hfree _ c)
      show (written.erase _).get? q = t.get? q
      rw [get?_erase hne, hwritten, get?_put hne]
      split
      · rename_i hq
        rw [hq, hnone]
      · rfl

end FileTree

variable {t u v : FileTree} {p : Session} {n : Nat} {w : Write} {ws done : Transaction}

theorem Session.Unused.mono (h : p.Unused t)
    (hold : ∀ {q c}, u.get? q = some (.file c) → t.get? q = some (.file c)) : p.Unused u :=
  fun q c hq hfile => h q c hq (hold hfile)

namespace Write

/-- The files with the content of the write at its place. -/
def applyTo (p : Session) (files : Place → Option Content) (w : Write) : Place → Option Content :=
  Function.update files (w.place p) (some (.text w.content))

/-- The step lemma for failures: a write that fails adds directories and nothing else. -/
theorem grows_of_execute_error {e : AccessError} (ht : t.WellFormed) (hunused : p.Unused t)
    (h : w.execute t p n = (u, some e)) : t.Grows u := by
  have hreplace : ∀ {v : FileTree}, t.Grows v →
      v.replaceFile p.cwd (p.scratch n) w.path w.content = (u, some e) → t.Grows u := by
    intro v hgrows herror
    have hfree : ∀ dir c, v.get? (dir ++ [p.scratch n]) ≠ some (.file c) := by
      intro dir c hfile
      exact hunused _ c ⟨dir, n, rfl⟩ (hgrows.file_iff.1 hfile)
    have hsame := FileTree.get?_of_replaceFile_error (p.slash_not_mem_scratch n)
      (p.isProper_scratch n) hfree herror
    intro q
    rw [hsame q]
    exact hgrows q
  unfold execute at h
  split at h
  · exact hreplace (FileTree.Grows.refl t) h
  · rename_i dir hdir
    have hgrows := (FileTree.makeFirst_grows ht p.cwd dir.ancestors).1
    unfold FileTree.makeDirs at h
    split at h
    · rename_i v err hmade
      cases h
      rw [hmade] at hgrows
      exact hgrows
    · rename_i v hmade
      rw [hmade] at hgrows
      exact hreplace hgrows h

theorem content?_of_isUnchanged (ht : t.WellFormed) (h : w.isUnchanged t p = true) :
    t.content? = w.applyTo p t.content? := by
  rw [isUnchanged_iff, FileTree.readText_eq_ok_iff, FileTree.node?_eq_file_iff ht] at h
  exact (Function.update_eq_self_iff.2 (FileTree.content?_eq_some_iff.2 h.2.2).symm).symm

section Done
variable (hdone : w.Done p n t u) (hunused : p.Unused t)
include hdone hunused

theorem Done.content?_eq : u.content? = w.applyTo p t.content? := by
  funext q
  unfold applyTo
  by_cases hq : q = w.place p
  · rw [hq, Function.update_self]
    exact FileTree.content?_eq_some_iff.2 hdone.written
  · rw [Function.update_of_ne hq]
    ext c
    rw [FileTree.content?_eq_some_iff, FileTree.content?_eq_some_iff, hdone.others hq]
    refine and_iff_right_of_imp fun hfile heq => ?_
    exact hunused q c ⟨_, n, heq⟩ hfile

theorem Done.unused (hnamed : ∀ m, w.path.fileName? ≠ some (p.scratch m)) : p.Unused u := by
  intro q c hq hfile
  by_cases hplace : q = w.place p
  · obtain ⟨dir, m, rfl⟩ := hq
    obtain ⟨ss, name, hends⟩ := hdone.ends
    have hname : p.scratch m = name := by
      unfold Write.place at hplace
      rw [FileTree.destination_of_endsIn hends] at hplace
      exact List.singleton_inj.1 (List.append_inj' hplace rfl).2
    apply hnamed m
    rw [hends.fileName?, hname]
  · exact hunused q c hq ((hdone.others hplace).1 hfile).2

end Done

end Write

namespace Transaction

/-- What a run of writes that has not failed makes of a tree, whatever the order and the number of
the writes to one place. -/
structure Performed (p : Session) (ws : Transaction) (t u : FileTree) : Prop where
  wellFormed : u.WellFormed
  unused : p.Unused u
  directories : ∀ q, t.get? q = some .directory → u.get? q = some .directory
  files : u.content? = ws.foldl (Write.applyTo p) t.content?

/-- The run lemma for the writes before a failure. -/
theorem performed_of_executeFrom {paths : List Path} (ht : t.WellFormed) (hunused : p.Unused t)
    (hnamed : ∀ w ∈ ws, ∀ m, w.path.fileName? ≠ some (p.scratch m))
    (h : executeFrom p n t ws = (u, .ok paths)) : Performed p ws t u := by
  induction ws generalizing n t paths with
  | nil =>
    cases h
    exact ⟨ht, hunused, fun _ hq => hq, rfl⟩
  | cons w ws ih =>
    obtain ⟨hw, hws⟩ := List.forall_mem_cons.1 hnamed
    unfold executeFrom at h
    split at h
    · rename_i hunchanged
      have hrest := ih ht hunused hws h
      refine ⟨hrest.wellFormed, hrest.unused, hrest.directories, ?_⟩
      rw [List.foldl_cons, ← Write.content?_of_isUnchanged ht hunchanged]
      exact hrest.files
    · split at h
      · cases h
      · rename_i v hexecute
        have hdone := Write.done_of_execute ht hexecute
        split at h
        · rename_i u' rest hrun
          cases h
          have hrest := ih hdone.wellFormed (hdone.unused hunused hw) hws hrun
          refine ⟨hrest.wellFormed, hrest.unused, ?_, ?_⟩
          · exact fun q hq => hrest.directories q (hdone.directories q hq)
          · rw [List.foldl_cons, ← hdone.content?_eq hunused]
            exact hrest.files
        · cases h

section Cons
variable {e : AccessError} (hneeded : w.isUnchanged t p = false)
include hneeded

theorem executeFrom_cons_of_error (hexecute : w.execute t p n = (u, some e)) (ws : Transaction) :
    executeFrom p n t (w :: ws) = (u, .error (.access e)) := by
  rw [executeFrom, if_neg (by simp [hneeded]), hexecute]

theorem executeFrom_cons_of_done (hexecute : w.execute t p n = (v, none)) (ws : Transaction) :
    executeFrom p n t (w :: ws) =
      ((executeFrom p (n + 1) v ws).1, (executeFrom p (n + 1) v ws).2.map (w.path :: ·)) := by
  rw [executeFrom, if_neg (by simp [hneeded]), hexecute]
  dsimp only
  split
  · rename_i u' paths hrun
    rw [hrun]
    rfl
  · rename_i u' e hrun
    rw [hrun]
    rfl

end Cons

/-- Executing gets past the writes `done` and fails at `w`, which is needed there. -/
def FailsAt (p : Session) (n : Nat) (t : FileTree) (done : Transaction) (w : Write)
    (u : FileTree) (e : AccessError) : Prop :=
  ∃ v paths, executeFrom p n t done = (v, .ok paths) ∧ w.isUnchanged v p = false ∧
    w.execute v p (n + paths.length) = (u, some e)

section FailsAt
variable {e : AccessError} {x : Write}

theorem failsAt_cons_of_unchanged (hx : x.isUnchanged t p = true) :
    FailsAt p n t (x :: done) w u e ↔ FailsAt p n t done w u e := by
  unfold FailsAt
  rw [executeFrom, if_pos hx]

theorem failsAt_cons_of_done (hx : x.isUnchanged t p = false)
    (hexecute : x.execute t p n = (v, none)) :
    FailsAt p n t (x :: done) w u e ↔ FailsAt p (n + 1) v done w u e := by
  have hlength : ∀ paths : List Path, n + 1 + paths.length = n + (x.path :: paths).length := by
    intro paths
    rw [List.length_cons]
    omega
  unfold FailsAt
  rw [executeFrom_cons_of_done hx hexecute]
  constructor
  · intro h
    obtain ⟨v', paths, hrun, hneeded, herror⟩ := h
    obtain ⟨rfl, hpaths⟩ := Prod.mk.inj hrun
    obtain ⟨paths', hok, rfl⟩ := map_eq_ok_iff.1 hpaths
    exact ⟨_, paths', Prod.ext rfl hok, hneeded, by rw [hlength, herror]⟩
  · intro h
    obtain ⟨v', paths, hrun, hneeded, herror⟩ := h
    refine ⟨v', x.path :: paths, ?_, hneeded, by rw [← hlength, herror]⟩
    rw [hrun]
    rfl

/-- Whatever follows the write that fails has no effect. -/
theorem executeFrom_of_failsAt (h : FailsAt p n t done w u e) (rest : Transaction) :
    executeFrom p n t (done ++ w :: rest) = (u, .error (.access e)) := by
  induction done generalizing n t with
  | nil =>
    obtain ⟨v, paths, hrun, hneeded, herror⟩ := h
    cases hrun
    exact executeFrom_cons_of_error hneeded herror rest
  | cons x done ih =>
    rw [List.cons_append]
    cases hx : x.isUnchanged t p with
    | true =>
      rw [executeFrom, if_pos hx]
      exact ih ((failsAt_cons_of_unchanged hx).1 h)
    | false =>
      rcases hexecute : x.execute t p n with ⟨v, failure⟩
      cases failure with
      | some err =>
        obtain ⟨v', paths, hrun, _⟩ := h
        rw [executeFrom_cons_of_error hx hexecute] at hrun
        cases hrun
      | none =>
        rw [executeFrom_cons_of_done hx hexecute, ih ((failsAt_cons_of_done hx hexecute).1 h)]
        rfl

/-- A run that fails does so at one of its writes. -/
theorem exists_failsAt {fault : Fault} (h : executeFrom p n t ws = (u, .error fault)) :
    ∃ done w rest e, ws = done ++ w :: rest ∧ FailsAt p n t done w u e ∧ fault = .access e := by
  induction ws generalizing n t with
  | nil => cases h
  | cons x ws ih =>
    cases hx : x.isUnchanged t p with
    | true =>
      rw [executeFrom, if_pos hx] at h
      obtain ⟨done, w, rest, e, rfl, hfails, rfl⟩ := ih h
      exact ⟨x :: done, w, rest, e, rfl, (failsAt_cons_of_unchanged hx).2 hfails, rfl⟩
    | false =>
      rcases hexecute : x.execute t p n with ⟨v, failure⟩
      cases failure with
      | some err =>
        rw [executeFrom_cons_of_error hx hexecute] at h
        cases h
        exact ⟨[], x, ws, err, rfl, ⟨t, [], rfl, hx, hexecute⟩, rfl⟩
      | none =>
        rw [executeFrom_cons_of_done hx hexecute] at h
        obtain ⟨rfl, hfault⟩ := Prod.mk.inj h
        obtain ⟨done, w, rest, e, rfl, hfails, rfl⟩ := ih (Prod.ext rfl (map_eq_error_iff.1 hfault))
        exact ⟨x :: done, w, rest, e, rfl, (failsAt_cons_of_done hx hexecute).2 hfails, rfl⟩

end FailsAt

/-- A transaction that fails does so at a write `w`, after writes that have been performed, whatever
number the scratch files start from. It leaves the files that these make of the files before, so the
target of `w` keeps its content; no scratch file is left, and all else that is new are directories.
What follows `w` has no effect. -/
theorem execute_eq_error {fault : Fault} (ht : t.WellFormed)
    (hnamed : ∀ w ∈ ws, ∀ m, w.path.fileName? ≠ some (p.scratch m)) (hunused : p.Unused t)
    (h : executeFrom p n t ws = (u, .error fault)) :
    ∃ done w rest v paths e, ws = done ++ w :: rest ∧ fault = .access e ∧
      executeFrom p n t done = (v, .ok paths) ∧ w.isUnchanged v p = false ∧
      w.execute v p (n + paths.length) = (u, some e) ∧
      u.content? = done.foldl (Write.applyTo p) t.content? ∧ u.content? = v.content? ∧
      v.Grows u ∧ (∀ q, t.get? q = some .directory → u.get? q = some .directory) ∧
      p.Unused u ∧
      ∀ rest', executeFrom p n t (done ++ w :: rest') = (u, .error fault) := by
  obtain ⟨done, w, rest, e, rfl, hfails, rfl⟩ := exists_failsAt h
  have hafter := executeFrom_of_failsAt hfails
  obtain ⟨v, paths, hrun, hneeded, herror⟩ := hfails
  have hdone := performed_of_executeFrom ht hunused
    (fun x hx => hnamed x (List.mem_append_left _ hx)) hrun
  have hgrows := Write.grows_of_execute_error hdone.wellFormed hdone.unused herror
  have hfiles := hgrows.content?_eq
  refine ⟨done, w, rest, v, paths, e, rfl, rfl, hrun, hneeded, herror, hfiles.trans hdone.files,
    hfiles, hgrows, ?_, ?_, hafter⟩
  · exact fun q hq => hgrows.directory (hdone.directories q hq)
  · exact hdone.unused.mono hgrows.file_iff.1

/-- The second target is a directory, and a directory is made on the way to it. -/
theorem execute_eq_error_directory :
    let t : FileTree := ⟨[(["w".toList], .directory),
      (["w".toList, "a.js".toList], .file (.text "old".toList)),
      (["w".toList, "out".toList], .directory)]⟩
    let p : Session := ⟨["w".toList], 7⟩
    let ws : Transaction := [⟨⟨"/w/a.js".toList⟩, "new".toList⟩,
      ⟨⟨"/w/gen/../out".toList⟩, "x".toList⟩, ⟨⟨"/w/d.js".toList⟩, "d".toList⟩]
    ∃ u done w rest, execute t p ws = (u, .error (.access .isDirectory)) ∧
      ws = done ++ w :: rest ∧ u.content? = done.foldl (Write.applyTo p) t.content? ∧
      p.Unused u ∧ u.content? ["w".toList, "a.js".toList] = some (.text "new".toList) ∧
      u.get? ["w".toList, "gen".toList] = some .directory ∧
      u.get? ["w".toList, "d.js".toList] = none := by
  intro t p ws
  have hstem : ∀ m ∈ t.nodes, ∀ n ∈ m.1.getLast?, ¬ ".mdtangle-tmp-".toList <+: n := by decide
  have hnames : ∀ w ∈ ws, ∀ n ∈ w.path.fileName?, ¬ ".mdtangle-tmp-".toList <+: n := by decide
  have hnamed : ∀ w ∈ ws, ∀ m, w.path.fileName? ≠ some (p.scratch m) :=
    fun w hw => p.ne_some_scratch (hnames w hw)
  have hunused : p.Unused t := .of_nodes hstem
  have hrun : execute t p ws = ((execute t p ws).1, .error (.access .isDirectory)) := by
    decide +kernel
  obtain ⟨done, w, rest, _, _, _, hws, _, _, _, _, hfiles, _, _, _, hfree, _⟩ := execute_eq_error
    (FileTree.wellFormed_of_nodes (by decide)) hnamed hunused hrun
  exact ⟨_, done, w, rest, hrun, hws, hfiles, hfree, by decide +kernel, by decide +kernel,
    by decide +kernel⟩

end Transaction

end Literate
