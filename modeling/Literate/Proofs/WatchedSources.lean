import Literate.Proofs.FilePaths
import Literate.Proofs.Routes
import Literate.Proofs.Sequences
import Literate.Watch

/-!
# Source files that are watched

The source files of a project are found by following a pattern from the base directory; a watched
path is matched with the text of the pattern as it stands. The two agree if the pattern is spelled
the way the paths are that it finds. They do not agree on patterns such as `./a.md`, `a//b.md` or
`/project/a.md`, whose spelling does not show in what they find.
-/

namespace Literate

namespace Path
variable {base name : Path}

/-- No character of the path is a wildcard. -/
def IsLiteral (p : Path) : Prop :=
  ∀ c ∈ p.text, c ≠ '?' ∧ c ≠ '*' ∧ c ≠ '['

instance (p : Path) : Decidable p.IsLiteral :=
  List.decidableBAll (fun c => c ≠ '?' ∧ c ≠ '*' ∧ c ≠ '[') p.text

/-- The pieces of a joined path behind its root: those of the directory, up to what does not show,
and those of the name. -/
theorem exists_pieces_of_join (hbase : base.isAbsolute = true) (hname : name.isAbsolute = false) :
    ∃ cs names, (base.join name).text = '/' :: cs ∧ Text.splitOn '/' cs = names ++ name.pieces ∧
      ofPieces false names = base.steps ∧ (∀ n ∈ names, ∀ c ∈ n, c ∈ base.text) := by
  have hne := text_ne_nil_of_isAbsolute hbase
  obtain ⟨cs, hcs⟩ := exists_text_of_isAbsolute (isAbsolute_join_left hbase name)
  obtain ⟨ss, _, hjoin, hss⟩ := exists_pieces_join hname hne
  have hdir : ss = Text.splitOn '/' (Text.dropEnd '/' base.text) := by
    have hpieces : (base.join name).pieces =
        Text.splitOn '/' (Text.dropEnd '/' base.text) ++ name.pieces := by
      rw [pieces, text_join hname hne, Text.splitOn_append_cons]
      rfl
    exact List.append_cancel_right (hjoin.symm.trans hpieces)
  have hroot : (base.join name).pieces = [] :: Text.splitOn '/' cs := by
    rw [pieces, hcs]
    exact Text.splitOn_append_cons '/' [] cs
  cases ss with
  | nil => exact absurd hdir.symm (Text.splitOn_ne_nil '/' _)
  | cons s names =>
    rw [hroot, List.cons_append] at hjoin
    obtain ⟨rfl, hnames⟩ := List.cons.inj hjoin
    refine ⟨cs, names, hcs, hnames, hss false, ?_⟩
    intro n hn c hc
    have hmem : n ∈ Text.splitOn '/' (Text.dropEnd '/' base.text) := by
      rw [← hdir]
      exact List.mem_cons_of_mem _ hn
    have hend := Text.mem_of_mem_splitOn hmem hc
    rcases Text.eq_dropEnd_or_concat '/' base.text with heq | heq
    · rw [heq]
      exact hend
    · rw [heq]
      exact List.mem_append_left _ hend

end Path

namespace Glob
variable {ss : List Text} {ps : List Pattern} {t : FileTree} {cwd : Place} {path q : Path}

/-- No piece is empty, and the first one does not match `.`. -/
def IsPlain (pattern : Text) : Prop :=
  (∀ s ∈ Text.splitOn '/' pattern, s ≠ []) ∧
    ∀ s ∈ (Text.splitOn '/' pattern).head?, s ≠ ['.'] ∧ s ≠ ['.', '*']

instance (pattern : Text) : Decidable (IsPlain pattern) :=
  inferInstanceAs (Decidable (_ ∧ _))

theorem IsPlain.isPiece {pattern s : Text} (h : IsPlain pattern)
    (hs : s ∈ Text.splitOn '/' pattern) : IsPiece s :=
  ⟨h.1 s hs, Text.not_mem_of_mem_splitOn hs⟩

theorem IsPlain.isAbsolute {pattern : Text} (h : IsPlain pattern) :
    (⟨pattern⟩ : Path).isAbsolute = false := by
  have hrel := isAbsolute_intercalate fun s hs => h.isPiece (s := s) hs
  rw [Path.intercalate_splitOn] at hrel
  exact hrel

/-- The first pattern of a plain pattern does not lead to `.`. -/
theorem IsPlain.not_dot {pattern : Text} {p : Pattern} (h : IsPlain pattern)
    (hread : List.Forall₂ (fun s p => Pattern.read s = .ok p) (Text.splitOn '/' pattern) ps)
    (hp : p ∈ (collapse ps).head?) (hhead : p.tokens.head? = some (.char '.')) :
    p.matchesText ['.'] = false := by
  rcases head?_collapse hp with hfirst | hrecursive
  · obtain ⟨s, hs, hsp⟩ : ∃ s ∈ (Text.splitOn '/' pattern).head?, Pattern.read s = .ok p := by
      generalize Text.splitOn '/' pattern = ss at hread
      cases hread with
      | nil => cases hfirst
      | @cons s r ss ps hs hrest =>
        obtain rfl : r = p := Option.some.inj hfirst
        exact ⟨s, rfl, hs⟩
    rw [Bool.eq_false_iff]
    intro hmatch
    rcases piece_of_read hsp (h.isPiece (List.mem_of_head? hs)).2 with ⟨_, hstars⟩ | hspells
    · rw [hstars] at hhead
      cases hhead
    · rcases hspells.eq_of_leaves_dot hhead (matchTokens_iff.1 hmatch) with hdot | hdot
      · exact absurd hdot (h.2 s hs).1
      · exact absurd hdot (h.2 s hs).2
  · obtain ⟨s, hs, hsp⟩ := exists_of_mem_forall₂ hread (mem_of_mem_collapse (List.mem_of_head? hp))
    rcases piece_of_read hsp (h.isPiece hs).2 with ⟨_, hstars⟩ | hspells
    · rw [hstars] at hhead
      cases hhead
    · rw [hspells.isRecursive] at hrecursive
      cases hrecursive

/-- A plain pattern below a directory without wildcards: first come the names of the directory. -/
theorem exists_route {base : Path} {pattern : Text} {r : Route} (hbase : base.isAbsolute = true)
    (hliteral : base.IsLiteral) (hplain : IsPlain pattern)
    (h : Route.read (base.join ⟨pattern⟩).text = .ok r) :
    ∃ bs names ps, r.components = bs ++ collapse ps ∧
      List.Forall₂ (fun b n => b.literal? = some n) bs names ∧ (∀ n ∈ names, '/' ∉ n) ∧
      Path.ofPieces false names = base.steps ∧
      List.Forall₂ (fun s p => Pattern.read s = .ok p) (Text.splitOn '/' pattern) ps := by
  obtain ⟨_, pieces, _, hpieces, _, hcomponents⟩ := Route.exists_of_read h
  obtain ⟨cs, names, htext, hsplit, hsteps, hchars⟩ :=
    Path.exists_pieces_of_join hbase hplain.isAbsolute
  have hsplit : Text.splitOn '/' cs = names ++ Text.splitOn '/' pattern := hsplit
  have hcut : cutComponents cs = names ++ Text.splitOn '/' pattern := by
    rw [cutComponents_of_ne]
    · exact hsplit
    · intro s hs
      rw [hsplit, List.getLast?_append_of_ne_nil _ (Text.splitOn_ne_nil '/' pattern)] at hs
      exact hplain.1 s (List.mem_of_getLast? hs)
  rw [htext, List.head?_cons, if_pos rfl, List.drop_one, List.tail_cons, hcut] at hpieces
  have hread := (mapM_eq_ok_iff.1 hpieces).flip
  have hbs := List.forall₂_take_append _ _ _ hread
  have hps := (List.forall₂_drop_append _ _ _ hread).flip
  have hnames := forall₂_literal hbs fun n hn c hc => hliteral c (hchars n hn c hc)
  refine ⟨_, names, _, ?_, hnames, ?_, hsteps, hps⟩
  · rw [hcomponents, ← collapse_append, List.take_append_drop]
    intro b hb
    obtain ⟨n, _, hn⟩ := exists_of_mem_forall₂ hnames.flip hb
    exact Pattern.isRecursive_of_literal? hn
  · intro n hn
    apply Text.not_mem_of_mem_splitOn (t := cs)
    rw [hsplit]
    exact List.mem_append_left _ hn

end Glob

namespace FileTree
variable {t : FileTree} {cwd : Place} {base d : Path} {pattern : Text} {found : List Path}

/-- Names on the way to a file show, since the last one is the name of the file. -/
theorem shows_of_isFile {root : Path} {ns : List Text} (ht : t.WellFormed)
    (hroot : root.isAbsolute = true)
    (hfile : t.isFile cwd (root.join ⟨['/'].intercalate ns⟩) = true)
    (hns : ∀ n ∈ ns, Glob.IsPiece n) (hne : ns ≠ []) (hfirst : ∀ n ∈ ns.head?, n ≠ ['.']) :
    (⟨['/'].intercalate ns⟩ : Path).Shows := by
  have hsplit : (⟨['/'].intercalate ns⟩ : Path).pieces = ns :=
    Path.splitOn_intercalate hne fun n hn => (hns n hn).2
  have hrelative := Glob.isAbsolute_intercalate hns
  refine ⟨hrelative, ?_, ?_⟩
  · intro n hn
    rw [hsplit] at hn
    have hnil := (hns n (List.mem_of_head? hn)).1
    have hdot := hfirst n hn
    simp only [Component.ofPiece?, if_neg hnil, if_neg hdot]
    split <;> rfl
  · intro n hn
    obtain ⟨c, hc⟩ := isFile_iff.1 hfile
    obtain ⟨_, ⟨ss, m, hends, _, _⟩, _⟩ := (node?_eq_file_iff ht).1 hc
    obtain ⟨rs, _, hjoin, _⟩ :=
      Path.exists_pieces_join hrelative (Path.text_ne_nil_of_isAbsolute hroot)
    have hlast : (rs ++ ns).getLast? = some m := by
      rw [← hsplit, ← hjoin, hends.pieces_eq, List.getLast?_concat]
    rw [List.getLast?_append_of_ne_nil _ hne] at hlast
    rw [hsplit, hlast] at hn
    cases hn
    rw [Component.ofPiece?_of_isProper false hends.proper]
    rfl

/-- What a plain pattern finds below a directory without wildcards: names that its pieces match. -/
theorem exists_names_of_mem_glob (ht : t.WellFormed) (hbase : base.isAbsolute = true)
    (hliteral : base.IsLiteral) (hplain : Glob.IsPlain pattern)
    (hfound : t.glob cwd base pattern = .ok found) (hd : d ∈ found) :
    ∃ ps ns, List.Forall₂ (fun s p => Glob.Pattern.read s = .ok p) (Text.splitOn '/' pattern) ps ∧
      Glob.Fits ps ns ∧ d = ⟨['/'].intercalate ns⟩ ∧ d.Shows := by
  obtain ⟨route, q, hroute, hreaches, hfile, rfl⟩ := exists_of_mem_glob hbase hfound hd
  obtain ⟨bs, names, ps, hcomponents, hbs, hslash, hsteps, hread⟩ :=
    Glob.exists_route hbase hliteral hplain hroute
  rw [hcomponents] at hreaches
  -- The names of the base directory lead to a spelling of it, and the pattern goes on from there.
  obtain ⟨root, hroot⟩ : ∃ root, root = names.foldl Glob.entry ⟨['/']⟩ := ⟨_, rfl⟩
  have habs : root.isAbsolute = true := by
    rw [hroot]
    exact Glob.isAbsolute_foldl_entry rfl names
  have hsame : root.components = base.components := by
    rw [hroot, Glob.components_foldl_entry rfl hslash, hsteps, Path.components_of_isAbsolute hbase]
    rfl
  have hrest := hreaches.of_literals hbs
  rw [← hroot] at hrest
  have hpieces : ∀ p ∈ Glob.collapse ps, ∀ n, p.literal? = some n → Glob.IsPiece n := by
    intro p hp n hn
    obtain ⟨s, hs, hsp⟩ := exists_of_mem_forall₂ hread (Glob.mem_of_mem_collapse hp)
    exact Glob.isPiece_of_read hsp (hplain.isPiece hs) hn
  obtain ⟨ns, hns⟩ := hrest.exists_leads ht habs hfile (Glob.isChain_collapse ps) hpieces
  have hfits := hns.fits.of_collapse
  have hne : ns ≠ [] := by
    apply hfits.ne_nil
    rintro rfl
    exact Text.splitOn_ne_nil '/' pattern (List.forall₂_nil_right_iff.1 hread)
  have hq : q = root.join ⟨['/'].intercalate ns⟩ := by
    rw [hns.path_eq, Glob.foldl_entry habs hns.pieces hne]
  rw [hq] at hfile ⊢
  have hshows := shows_of_isFile ht habs hfile hns.pieces hne
    (hns.shows fun p hp => hplain.not_dot hread hp)
  rw [Path.relativeTo_join hsame habs hshows]
  exact ⟨ps, ns, hread, hfits, rfl, hshows⟩

end FileTree

namespace WatchFilter
variable {settings : Settings} {f : WatchFilter} {base d : Path} {p : Session} {t : FileTree}
  {docs : List Path}

theorem forall₂_of_readPatterns {patterns : List Text} {ps : List Glob.Pattern}
    (h : readPatterns patterns = .ok ps) :
    List.Forall₂ (fun s p => Glob.Pattern.read s = .ok p) patterns ps := by
  unfold readPatterns at h
  split at h
  · rename_i hread
    cases h
    exact mapM_eq_ok_iff.1 hread
  · cases h

theorem exists_of_ofSettings (h : ofSettings settings = .ok f) :
    readPatterns (settings.exclude ++ settings.watch.exclude) = .ok f.exclude ∧
      readPatterns settings.sourcePatterns = .ok f.sources := by
  unfold ofSettings at h
  split at h
  · cases h
  · rename_i hexclude
    split at h
    · cases h
    · rename_i hsources
      cases h
      exact ⟨hexclude, hsources⟩

/-- A source file that a plain pattern finds is matched by the text of that pattern. -/
theorem matchesPath_of_mem_glob {pattern : Text} {whole : Glob.Pattern} {found : List Path}
    (ht : t.WellFormed) (hbase : base.isAbsolute = true) (hliteral : base.IsLiteral)
    (hplain : Glob.IsPlain pattern) (hfound : t.glob p.cwd base pattern = .ok found)
    (hd : d ∈ found) (hwhole : Glob.Pattern.read pattern = .ok whole) :
    Path.relativeTo base (base.join d) = d ∧ whole.matchesPath d = true := by
  obtain ⟨ps, ns, hread, hfits, rfl, hshows⟩ :=
    FileTree.exists_names_of_mem_glob ht hbase hliteral hplain hfound hd
  refine ⟨Path.relativeTo_join rfl hbase hshows, ?_⟩
  rw [← Path.intercalate_splitOn pattern] at hwhole
  exact Glob.matchesText_of_fits hfits hread (fun s hs => Text.not_mem_of_mem_splitOn hs) hwhole

/-- If the base directory holds no wildcard and all source patterns are plain, every change of a
source file is relevant. -/
theorem isRelevant_of_mem_sourceFiles (ht : t.WellFormed) (hbase : base.isAbsolute = true)
    (hliteral : base.IsLiteral) (hplain : ∀ pattern ∈ settings.sourcePatterns, Glob.IsPlain pattern)
    (hwatch : settings.watch.exclude = []) (hf : ofSettings settings = .ok f)
    (hdocs : (Project.onTree settings base p t).sourceFiles = .ok docs) :
    ∀ d ∈ docs, f.isRelevant base (base.join d) = true := by
  intro d hd
  obtain ⟨hexclude, hsources⟩ := exists_of_ofSettings hf
  rw [hwatch, List.append_nil] at hexclude
  obtain ⟨⟨exclude, hread, hexcluded⟩, pattern, hpattern, found, hfound, hmem⟩ :=
    Project.exists_of_mem_sourceFiles hdocs hd
  have hread : readPatterns settings.exclude = .ok exclude := hread
  rw [hexclude] at hread
  cases hread
  obtain ⟨whole, hwhole, hpat⟩ :=
    exists_of_mem_forall₂ (forall₂_of_readPatterns hsources).flip hpattern
  obtain ⟨hrelative, hmatch⟩ := matchesPath_of_mem_glob ht hbase hliteral
    (hplain pattern hpattern) hfound hmem hpat
  have hany : f.sources.any (·.matchesPath d) = true := List.any_eq_true.2 ⟨whole, hwhole, hmatch⟩
  have hnone : f.exclude.any (·.matchesComponents d) = false := hexcluded
  simp only [isRelevant, hrelative, hany, hnone, Bool.not_false, Bool.and_true]

/-- The pattern has `.` in its middle, `**` and a set of characters, and the base directory is
spelled with a separator at its end. -/
theorem isRelevant_of_mem_sourceFiles_deep :
    let t : FileTree := ⟨[(["w".toList], .directory), (["w".toList, "doc".toList], .directory),
      (["w".toList, "doc".toList, "in".toList], .directory),
      (["w".toList, "doc".toList, "in".toList, "a1.md".toList], .file (.text [])),
      (["w".toList, "doc".toList, "in".toList, "ab.md".toList], .file (.text []))]⟩
    let base : Path := ⟨"/w/".toList⟩
    let settings : Settings := { Settings.default with
      sourcePatterns := ["doc/./**/a[0-9].*".toList]
      exclude := [] }
    let docs : List Path := [⟨"doc/./in/a1.md".toList⟩]
    (Project.onTree settings base ⟨[], 7⟩ t).sourceFiles = .ok docs ∧
      ∃ f, ofSettings settings = .ok f ∧ ∀ d ∈ docs, f.isRelevant base (base.join d) = true := by
  intro t base settings docs
  have hdocs : (Project.onTree settings base ⟨[], 7⟩ t).sourceFiles = .ok docs := by
    decide +kernel
  have hsome : (ofSettings settings).toOption.isSome = true := by decide +kernel
  obtain ⟨f, hf⟩ : ∃ f, ofSettings settings = .ok f := by
    cases h : ofSettings settings with
    | error e =>
      rw [h] at hsome
      cases hsome
    | ok f => exact ⟨f, rfl⟩
  exact ⟨hdocs, f, hf, isRelevant_of_mem_sourceFiles (FileTree.wellFormed_of_nodes (by decide))
    (by decide) (by decide) (by decide) rfl hf hdocs⟩

/-- A source file whose pattern starts with `./` is found and yet not watched. -/
theorem isRelevant_missed :
    let t : FileTree := ⟨[(["w".toList], .directory), (["w".toList, "docs".toList], .directory),
      (["w".toList, "docs".toList, "a.md".toList], .file (.text []))]⟩
    let base : Path := ⟨"/w".toList⟩
    let settings : Settings := { Settings.default with sourcePatterns := ["./docs/*.md".toList] }
    (Project.onTree settings base ⟨[], 7⟩ t).sourceFiles = .ok [⟨"docs/a.md".toList⟩] ∧
      (ofSettings settings).toOption.map (·.isRelevant base (base.join ⟨"docs/a.md".toList⟩)) =
        some false := by
  intro t base settings
  exact ⟨by decide +kernel, by decide +kernel⟩

end WatchFilter

end Literate
