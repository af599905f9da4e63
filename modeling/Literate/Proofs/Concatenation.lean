import Literate.Document
import Literate.Proofs.Lines

/-!
# Documents one after the other

A document that ends with a complete line and leaves no fence open can be followed by any other
document: its fences come first, unchanged, and then those of the other one, with their lines
counted on. So a document may be cut in two anywhere outside of its fences.
-/

namespace Literate

namespace Text
variable {t : Text}

/-- A text of complete lines. -/
inductive IsComplete : Text → Prop where
  | nil : IsComplete []
  | line {l rest : Text} (single : '\n' ∉ l) (complete : IsComplete rest) :
      IsComplete (l ++ '\n' :: rest)

theorem isComplete_of_getLast? (h : t = [] ∨ t.getLast? = some '\n') : IsComplete t := by
  induction hn : t.length using Nat.strongRecOn generalizing t with
  | ind n ih =>
    rcases h with rfl | hlast
    · exact .nil
    · obtain ⟨l, rest, rfl, hl⟩ := List.eq_append_cons_of_mem (List.mem_of_getLast? hlast)
      have hrest : rest = [] ∨ rest.getLast? = some '\n' := by
        by_cases hnil : rest = []
        · exact .inl hnil
        · rw [List.getLast?_append_cons, List.getLast?_cons_of_ne_nil hnil] at hlast
          exact .inr hlast
      refine .line hl (ih rest.length ?_ hrest rfl)
      rw [← hn, List.length_append, List.length_cons]
      omega

theorem IsComplete.rows_append (h : IsComplete t) (u : Text) :
    rows (t ++ u) = rows t ++ rows u := by
  induction h with
  | nil => rfl
  | line hl _ ih =>
    rw [List.append_assoc, List.cons_append, rows_append_cons hl, ih, rows_append_cons hl,
      List.cons_append]

theorem IsComplete.lines_append (h : IsComplete t) (u : Text) :
    lines (t ++ u) = lines t ++ lines u := by
  rw [lines, h.rows_append, List.map_append, lines, lines]

theorem IsComplete.length_lines (h : IsComplete t) : (lines t).length = t.count '\n' := by
  rw [lines, List.length_map]
  induction h with
  | nil => rfl
  | line hl _ ih =>
    rw [rows_append_cons hl, List.length_cons, ih, List.count_append, List.count_eq_zero.2 hl,
      List.count_cons_self, Nat.zero_add]

end Text

/-- The same place in a document with `k` more lines in front. -/
def Location.down (k : Nat) (l : Location) : Location :=
  { l with line := l.line + k }

def Block.down (k : Nat) (b : Block) : Block :=
  { b with location := b.location.map (Location.down k) }

namespace Fence

def down (k : Nat) (f : Fence) : Fence :=
  { f with line := f.line + k }

def Begun.down (k : Nat) (b : Begun) : Begun :=
  { b with line := b.line + k }

theorem line_after (n : Nat) (l : Text) (ls : List Text) :
    n + 1 + ls.length = n + (l :: ls).length := by
  rw [List.length_cons]
  omega

/-- If no fence is left open, reading starts afresh with the lines that follow. -/
theorem readLines_append {n : Nat} {begun : Option Begun} {ls : List Text} (ms : List Text)
    (h : ∀ f ∈ readLines n begun ls, f.closed = true) :
    readLines n begun (ls ++ ms) = readLines n begun ls ++ readLines (n + ls.length) none ms := by
  fun_induction readLines n begun ls with
  | case1 n => rfl
  | case2 n b => exact absurd (h _ List.mem_cons_self) Bool.false_ne_true
  | case3 n l ls hplain ih =>
    rw [List.cons_append, readLines, hplain]
    dsimp only
    rw [ih h, line_after n l]
  | case4 n l ls o hopens ih =>
    rw [List.cons_append, readLines, hopens]
    dsimp only
    rw [ih h, line_after n l]
  | case5 n b l ls hcloses ih =>
    obtain ⟨_, hrest⟩ := List.forall_mem_cons.1 h
    rw [List.cons_append, readLines, if_pos hcloses, ih hrest, line_after n l, List.cons_append]
  | case6 n b l ls hopen ih =>
    rw [List.cons_append, readLines, if_neg hopen, ih h, line_after n l]

/-- Counting from a later line moves all fences down. -/
theorem readLines_down (k n : Nat) (begun : Option Begun) (ls : List Text) :
    readLines (n + k) (begun.map (Begun.down k)) ls = (readLines n begun ls).map (down k) := by
  fun_induction readLines n begun ls with
  | case1 n => rfl
  | case2 n b => rfl
  | case3 n l ls hplain ih =>
    rw [Option.map_none, readLines, hplain]
    dsimp only
    rw [Nat.add_right_comm, ← ih, Option.map_none]
  | case4 n l ls o hopens ih =>
    rw [Option.map_none, readLines, hopens]
    dsimp only
    rw [Nat.add_right_comm, ← ih]
    rfl
  | case5 n b l ls hcloses ih =>
    have hcloses' : (b.down k).opening.isClosed l = true := hcloses
    rw [Option.map_some, readLines, if_pos hcloses', List.map_cons, Nat.add_right_comm, ← ih]
    rfl
  | case6 n b l ls hopen ih =>
    have hopen' : ¬ (b.down k).opening.isClosed l = true := hopen
    rw [Option.map_some, readLines, if_neg hopen', Nat.add_right_comm, ← ih]
    rfl

theorem read_append_eq {t : Text} (ht : Text.IsComplete t) (hclosed : ∀ f ∈ read t, f.closed = true)
    (u : Text) : read (t ++ u) = read t ++ (read u).map (down (Text.lines t).length) := by
  unfold read at hclosed ⊢
  rw [ht.lines_append, readLines_append _ hclosed, ← readLines_down, Option.map_none]

theorem block?_down (settings : Settings) (path : Option Path) (k : Nat) (f : Fence) :
    Document.block? settings path (f.down k) =
      (Document.block? settings path f).map (Block.down k) := by
  have hsame : ((f.down k).closed && settings.accepts (Label.languageTag (f.down k).info)) =
      (f.closed && settings.accepts (Label.languageTag f.info)) := rfl
  unfold Document.block?
  rw [hsame]
  split <;> rfl

/-- The fences of a text of complete lines that leaves no fence open, followed by any other text,
are those of the two, the latter moved down by the number of lines in front of them. The same is
true of the blocks, under all settings. -/
theorem read_append {t : Text} (ht : t = [] ∨ t.getLast? = some '\n')
    (hclosed : ∀ f ∈ read t, f.closed = true) (u : Text) :
    read (t ++ u) = read t ++ (read u).map (down (Text.lines t).length) ∧
      (Text.lines t).length = t.count '\n' ∧
      ∀ settings path, (Document.read settings path (t ++ u)).blocks =
        (Document.read settings path t).blocks ++
          (Document.read settings path u).blocks.map (Block.down (Text.lines t).length) := by
  have ht := Text.isComplete_of_getLast? ht
  refine ⟨read_append_eq ht hclosed u, ht.length_lines, ?_⟩
  intro settings path
  unfold Document.read
  dsimp only
  rw [read_append_eq ht hclosed, List.filterMap_append, List.filterMap_map, List.map_filterMap]
  congr 2
  funext f
  exact block?_down settings path _ f

/-- The fence of tildes holds a line that would open a fence of backticks. -/
theorem read_append_nested :
    let t : Text := "~~~\n```\n~~~\n\n".toList
    let u : Text := "```js\nx\n```".toList
    (read (t ++ u)).map line = [1, 5] ∧
      read (t ++ u) = read t ++ (read u).map (down 4) := by
  intro t u
  have hclosed : ∀ f ∈ read t, f.closed = true := List.all_eq_true.1 (by decide +kernel)
  obtain ⟨hread, _⟩ := read_append (.inr rfl) hclosed u
  have hlength : (Text.lines t).length = 4 := by decide +kernel
  rw [hlength] at hread
  exact ⟨by decide +kernel, hread⟩

end Fence

end Literate
