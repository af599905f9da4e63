import Literate.Document
import Literate.Proofs.FenceLines
import Literate.Proofs.Lines
import Literate.Proofs.Trimming

/-!
# Reading undoes writing

A text is written into a document between two lines of backticks, the first of which carries its
info. Reading a document of such texts gives them back, provided that no line of a text closes its
own fence. Shorter fences, fences of tildes and other openings may stand inside.
-/

namespace Literate

structure FencedText where
  count : Nat
  info : Text
  text : Text
  deriving DecidableEq, Repr

namespace FencedText

def marks (f : FencedText) : Text :=
  List.replicate f.count '`'

def written (f : FencedText) : Text :=
  f.marks ++ f.info ++ '\n' :: (f.text ++ '\n' :: f.marks)

def opening (f : FencedText) : Opening :=
  ⟨[], '`', f.count, f.info⟩

/-- What reading cannot tell apart is left out: white space around the info, carriage returns before
line feeds, and lines of the text that close the fence. -/
structure IsReadable (f : FencedText) : Prop where
  long : 3 ≤ f.count
  info_trimmed : Text.trim f.info = f.info
  info_no_backtick : '`' ∉ f.info
  info_one_line : '\n' ∉ f.info
  text_no_return : ∀ l ∈ Text.splitOn '\n' f.text, l.getLast? ≠ some '\r'
  text_open : ∀ l ∈ Text.splitOn '\n' f.text, ¬ f.opening.Closes l

instance (f : FencedText) : Decidable f.IsReadable :=
  decidable_of_iff
    (3 ≤ f.count ∧ Text.trim f.info = f.info ∧ '`' ∉ f.info ∧ '\n' ∉ f.info ∧
      (∀ l ∈ Text.splitOn '\n' f.text, l.getLast? ≠ some '\r') ∧
      ∀ l ∈ Text.splitOn '\n' f.text, ¬ f.opening.Closes l)
    ⟨fun ⟨long, trimmed, backtick, line, noReturn, opened⟩ =>
        ⟨long, trimmed, backtick, line, noReturn, opened⟩,
      fun h => ⟨h.long, h.info_trimmed, h.info_no_backtick, h.info_one_line, h.text_no_return,
        h.text_open⟩⟩

/-- The label of the block: the info, unless it is empty. -/
def label (f : FencedText) : Option Text :=
  match f.info with
  | [] => none
  | info => some info

def block (path : Option Path) (line : Nat) (f : FencedText) : Block :=
  ⟨f.label, f.text, some ⟨path, line⟩⟩

/-- The blocks of texts that are written one after the other, given what stands before them. The
line of a block is one more than the number of line feeds before it. -/
def blocksAfter (path : Option Path) (before : Text) : List FencedText → List Block
  | [] => []
  | f :: fs =>
    f.block path (before.count '\n' + 1) :: blocksAfter path (before ++ f.written ++ ['\n']) fs

variable {f : FencedText} {fs : List FencedText}

theorem eq_of_mem_marks {c : Char} (h : c ∈ f.marks) : c = '`' :=
  List.eq_of_mem_replicate h

theorem newline_not_mem_marks (f : FencedText) : '\n' ∉ f.marks :=
  fun h => absurd (eq_of_mem_marks h) (by decide)

theorem getLast?_marks (f : FencedText) : f.marks.getLast? ≠ some '\r' :=
  fun h => absurd (eq_of_mem_marks (List.mem_of_getLast? h)) (by decide)

theorem marks_ne_nil (h : f.IsReadable) : f.marks ≠ [] := by
  have := h.long
  rw [marks, Ne, List.replicate_eq_nil_iff]
  omega

theorem getLast?_marks_append (h : f.IsReadable) : (f.marks ++ f.info).getLast? ≠ some '\r' := by
  rw [List.getLast?_append]
  cases hinfo : f.info.getLast? with
  | none => simpa using f.getLast?_marks
  | some c =>
    rw [← h.info_trimmed] at hinfo
    have hwhite := Text.isWhite_of_getLast?_trim hinfo
    rintro ⟨⟩
    cases hwhite

theorem splitOn_written (h : f.IsReadable) :
    Text.splitOn '\n' f.written =
      (f.marks ++ f.info) :: (Text.splitOn '\n' f.text ++ [f.marks]) := by
  have hfirst : '\n' ∉ f.marks ++ f.info := by
    simp [f.newline_not_mem_marks, h.info_one_line]
  rw [written, Text.splitOn_append_cons, Text.splitOn_append_cons, Text.splitOn_eq _ (f.marks ++ _),
    Text.splitOn_eq _ f.marks, List.splitOn_eq_singleton hfirst,
    List.splitOn_eq_singleton f.newline_not_mem_marks, List.singleton_append]

theorem isLine_of_mem_splitOn_written (h : f.IsReadable) :
    ∀ l ∈ Text.splitOn '\n' f.written, Text.IsLine l := by
  intro l hl
  refine ⟨Text.not_mem_of_mem_splitOn hl, ?_⟩
  rw [splitOn_written h] at hl
  rcases List.mem_cons.1 hl with rfl | hl
  · exact getLast?_marks_append h
  · rcases List.mem_append.1 hl with hl | hl
    · exact h.text_no_return l hl
    · rw [List.mem_singleton.1 hl]
      exact f.getLast?_marks

/-- The written texts, line by line. -/
def documentLines (fs : List FencedText) : List Text :=
  fs.flatMap fun f => Text.splitOn '\n' f.written

theorem unlines_documentLines (fs : List FencedText) :
    Text.unlines (documentLines fs) = Text.unlines (fs.map written) := by
  have hne : ∀ ls ∈ fs.map (fun f => Text.splitOn '\n' f.written), ls ≠ [] := by
    intro ls hls
    obtain ⟨f, _, rfl⟩ := List.mem_map.1 hls
    exact Text.splitOn_ne_nil _ _
  rw [documentLines, List.flatMap_def, ← Text.unlines_map_unlines hne, List.map_map]
  congr 1
  apply List.map_congr_left
  intro f _
  exact Text.unlines_splitOn f.written

theorem isLine_of_mem_documentLines (hfs : ∀ f ∈ fs, f.IsReadable) :
    ∀ l ∈ documentLines fs, Text.IsLine l := by
  intro l hl
  obtain ⟨f, hf, hl⟩ := List.mem_flatMap.1 hl
  exact isLine_of_mem_splitOn_written (hfs f hf) l hl

theorem getLast?_documentLines (hfs : ∀ f ∈ fs, f.IsReadable) :
    (documentLines fs).getLast? ≠ some [] := by
  rcases List.eq_nil_or_concat fs with rfl | ⟨before, f, rfl⟩
  · simp [documentLines]
  · have hf : f.IsReadable := hfs f (by simp)
    have hlast : (documentLines (before.concat f)).getLast? = some f.marks := by
      rw [documentLines, List.concat_eq_append, List.flatMap_append, List.flatMap_singleton,
        splitOn_written hf, ← List.cons_append, ← List.append_assoc, List.getLast?_concat]
    rw [hlast]
    exact fun h => marks_ne_nil hf (Option.some.inj h)

theorem documentLines_ne_nil (h : fs ≠ []) : documentLines fs ≠ [] := by
  obtain ⟨f, fs, rfl⟩ := List.exists_cons_of_ne_nil h
  simp [documentLines, Text.splitOn_ne_nil]

end FencedText

namespace Fence

/-- Reading a fence under way up to the first line that closes it. -/
theorem readLines_append_cons {o : Opening} {content : List Text} {l : Text} (n line : Nat)
    (acc : List Text) (hopen : ∀ k ∈ content, o.isClosed k = false) (hl : o.isClosed l = true)
    (rest : List Text) :
    readLines n (some ⟨o, line, acc⟩) (content ++ l :: rest) =
      o.fence true line (acc.reverse ++ content) ::
        readLines (n + content.length + 1) none rest := by
  induction content generalizing n acc with
  | nil => simp [readLines, hl, Begun.fence]
  | cons k content ih =>
    obtain ⟨hk, hrest⟩ := List.forall_mem_cons.1 hopen
    have hcount : n + (k :: content).length + 1 = n + 1 + content.length + 1 := by
      rw [List.length_cons]
      omega
    rw [List.cons_append, readLines, if_neg (by simp [hk]), ih (n + 1) (k :: acc) hrest, hcount,
      List.reverse_cons, List.append_assoc, List.singleton_append]

end Fence

namespace FencedText
variable {f : FencedText} {fs : List FencedText}

def fence (line : Nat) (f : FencedText) : Fence :=
  ⟨true, f.info, f.text, line, []⟩

theorem ofLine?_marks_append (h : f.IsReadable) :
    Opening.ofLine? (f.marks ++ f.info) = some f.opening := by
  have hrun : f.info.head? ≠ some '`' :=
    fun hhead => h.info_no_backtick (List.mem_of_mem_head? hhead)
  have hopens : Opening.Opens ⟨[], '`', f.count, Text.trim f.info⟩ ([] ++ f.marks ++ f.info) :=
    .intro (by simp) (.inl rfl) h.long hrun fun _ => h.info_no_backtick
  rw [h.info_trimmed] at hopens
  exact Opening.ofLine?_of_opens hopens

theorem isClosed_eq_false (h : f.IsReadable) :
    ∀ l ∈ Text.splitOn '\n' f.text, f.opening.isClosed l = false := by
  intro l hl
  rw [Bool.eq_false_iff]
  exact fun hclosed => h.text_open l hl (Opening.isClosed_iff.1 hclosed)

theorem isClosed_marks (f : FencedText) : f.opening.isClosed f.marks = true := by
  have htrim : Text.trim f.marks = f.marks := by
    apply Text.trim_eq_self
    apply Text.isTrimmed_of_forall
    intro c hc
    rw [eq_of_mem_marks hc]
    decide
  exact Opening.isClosed_iff.2 ⟨f.count, le_rfl, htrim⟩

theorem fence_opening (f : FencedText) (line : Nat) :
    f.opening.fence true line (Text.splitOn '\n' f.text) = f.fence line := by
  have hstrip : f.opening.strip = id := by
    funext l
    rw [Opening.strip_eq_unindent]
    simp [Opening.unindent, opening]
  rw [Opening.fence, hstrip, List.map_id, Text.unlines_splitOn]
  rfl

theorem readLines_written (h : f.IsReadable) (n : Nat) (rest : List Text) :
    Fence.readLines n none (Text.splitOn '\n' f.written ++ rest) =
      f.fence n :: Fence.readLines (n + f.written.count '\n' + 1) none rest := by
  have hcount : (Text.splitOn '\n' f.text).length + 2 = f.written.count '\n' + 1 := by
    have := Text.length_splitOn '\n' f.written
    rw [splitOn_written h] at this
    simpa using this
  rw [splitOn_written h, List.cons_append, Fence.readLines, ofLine?_marks_append h,
    List.append_assoc, List.singleton_append]
  dsimp only
  rw [Fence.readLines_append_cons (n + 1) n [] (isClosed_eq_false h) f.isClosed_marks,
    List.reverse_nil, List.nil_append, fence_opening]
  congr 2
  omega

theorem block?_fence {settings : Settings} (hlanguages : settings.languages = [])
    (path : Option Path) (f : FencedText) (line : Nat) :
    Document.block? settings path (f.fence line) = some (f.block path line) := by
  have haccepts : settings.accepts (Label.languageTag f.info) = true := by
    simp [Settings.accepts, hlanguages]
  have hlabel : (if f.info = [] then none else some f.info) = f.label := by
    rw [label]
    cases f.info <;> rfl
  rw [Document.block?, fence, if_pos (by simp [haccepts])]
  simp only [block, hlabel, Document.locate]

theorem readLines_documentLines (hfs : ∀ f ∈ fs, f.IsReadable) (before : Text)
    (settings : Settings) (hlanguages : settings.languages = []) (path : Option Path) :
    (Fence.readLines (before.count '\n' + 1) none (documentLines fs)).filterMap
      (Document.block? settings path) = blocksAfter path before fs := by
  induction fs generalizing before with
  | nil => rfl
  | cons f fs ih =>
    obtain ⟨hf, hrest⟩ := List.forall_mem_cons.1 hfs
    have hline : before.count '\n' + 1 + f.written.count '\n' + 1 =
        (before ++ f.written ++ ['\n']).count '\n' + 1 := by
      simp only [List.count_append, List.count_singleton_self]
      omega
    rw [documentLines, List.flatMap_cons, readLines_written hf,
      List.filterMap_cons_some (block?_fence hlanguages path f _), hline, blocksAfter, ← ih hrest]
    rfl

end FencedText

namespace Document

/-- Texts that are written one after the other, with or without a line feed at the end, are read
back in order and each with the line of its opening. -/
theorem read_written (settings : Settings) (hlanguages : settings.languages = [])
    (path : Option Path) (fs : List FencedText) (hfs : ∀ f ∈ fs, f.IsReadable) (stop : Text)
    (hstop : stop = [] ∨ stop = ['\n']) :
    read settings path (Text.unlines (fs.map FencedText.written) ++ stop) =
      ⟨path, FencedText.blocksAfter path [] fs⟩ := by
  have hread := FencedText.readLines_documentLines hfs [] settings hlanguages path
  have hline := FencedText.isLine_of_mem_documentLines hfs
  rw [read, Fence.read, ← FencedText.unlines_documentLines]
  rcases hstop with rfl | rfl
  · rw [List.append_nil, Text.lines_unlines hline (FencedText.getLast?_documentLines hfs)]
    exact congrArg _ hread
  · cases fs with
    | nil => rfl
    | cons f fs =>
      rw [Text.lines_unlines_newline hline (FencedText.documentLines_ne_nil (by simp))]
      exact congrArg _ hread

/-- A shorter fence, a fence of tildes and blank lines inside of a fence, and an empty text. -/
theorem read_written_nested :
    let outer : FencedText :=
      ⟨4, "js > a.js#b".toList, "\n```js\n~~~~\n<<b>>\n\n".toList⟩
    let empty : FencedText := ⟨3, [], []⟩
    outer.IsReadable ∧ empty.IsReadable ∧
      read .default none (Text.unlines [outer.written, empty.written] ++ ['\n']) =
        ⟨none, [outer.block none 1, empty.block none 9]⟩ := by
  intro outer empty
  have houter : outer.IsReadable := by decide +kernel
  have hempty : empty.IsReadable := by decide +kernel
  have hread := read_written .default rfl none [outer, empty]
    (List.forall_mem_cons.2 ⟨houter, List.forall_mem_singleton.2 hempty⟩) ['\n'] (.inr rfl)
  exact ⟨houter, hempty, hread.trans (by decide +kernel)⟩

end Document

end Literate
