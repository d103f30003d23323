import SolidityFlattener.Proofs.Text.Lines
import SolidityFlattener.Source.Scan

/-!
What a scan keeps of a text.

A line that is kept holds no line break and starts no import statement, whatever the text is. The
header lines are those with a mark among them, and the body lines are the others, with no blank
line at either end. A text in which no line starts an import statement is kept in full, but for the
blank lines around its body.
-/

namespace SolidityFlattener.Source

variable {lines : List Text} {line text : Text} {held : Option (List Text)}

/-- A line that a scan can keep. -/
structure IsKept (line : Text) : Prop where
  oneLine : line.OneLine
  startsImport : startsImport line = false

/-- Lines that can be a header. -/
def IsHeader (lines : List Text) : Prop := ∀ line ∈ lines, IsKept line ∧ isHeaderLine line

/-- Lines that can be a body. -/
structure IsBody (lines : List Text) : Prop where
  kept : ∀ line ∈ lines, IsKept line ∧ ¬isHeaderLine line
  stripped : Text.Stripped Text.isBlankLine lines

/-! ### Pieces -/

/-- A piece that is a single line is a line of the text, and starts no statement. -/
theorem mem_of_line_mem_piecesAfter (h : .line line ∈ piecesAfter held lines) :
    line ∈ lines ∧ startsImport line = false := by
  fun_induction piecesAfter held lines with
  | case1 => simp at h
  | case2 => simp at h
  | case3 l rest hstarts hends ih =>
      have h := ih (by simpa using h)
      exact ⟨List.mem_cons_of_mem _ h.1, h.2⟩
  | case4 l rest hstarts hends ih => exact ⟨List.mem_cons_of_mem _ (ih h).1, (ih h).2⟩
  | case5 l rest hstarts ih =>
      rcases List.mem_cons.1 h with heq | h
      · obtain rfl : line = l := Piece.line.inj heq
        exact ⟨List.mem_cons_self, by simpa using hstarts⟩
      · exact ⟨List.mem_cons_of_mem _ (ih h).1, (ih h).2⟩
  | case6 held l rest hends ih =>
      have h := ih (by simpa using h)
      exact ⟨List.mem_cons_of_mem _ h.1, h.2⟩
  | case7 held l rest hends ih => exact ⟨List.mem_cons_of_mem _ (ih h).1, (ih h).2⟩

theorem isKept_of_line_mem_pieces (h : .line line ∈ pieces text.lines) : IsKept line :=
  ⟨Text.oneLine_of_mem_lines (mem_of_line_mem_piecesAfter h).1, (mem_of_line_mem_piecesAfter h).2⟩

/-- The piece that a line is if it leaves no statement open. -/
def pieceOf (line : Text) : Piece := if startsImport line then .statement [line] else .line line

/-- Where every statement ends on the line that it starts on, the pieces are the lines. -/
theorem pieces_eq_map_pieceOf (h : ∀ line ∈ lines, startsImport line → endsStatement line) :
    pieces lines = lines.map pieceOf := by
  induction lines with
  | nil => rfl
  | cons line lines ih =>
      have hrest := ih fun l hl => h l (List.mem_cons_of_mem _ hl)
      rw [pieces, piecesAfter, List.map_cons, ← hrest, pieceOf]
      split_ifs with hstarts hends
      · rfl
      · exact absurd (h line List.mem_cons_self hstarts) hends
      · rfl

/-- Lines that start no statement are pieces of their own. -/
theorem pieces_eq_map (h : ∀ line ∈ lines, startsImport line = false) :
    pieces lines = lines.map .line := by
  rw [pieces_eq_map_pieceOf fun line hline hstarts => by simp [h line hline] at hstarts]
  refine List.map_congr_left fun line hline => ?_
  simp [pieceOf, h line hline]

/-! ### Scans -/

theorem mem_singles : line ∈ (pieces lines).filterMap Piece.line? ↔ .line line ∈ pieces lines := by
  rw [List.mem_filterMap]
  constructor
  · rintro ⟨piece, hpiece, hline⟩
    cases piece with
    | statement _ => cases hline
    | line l => rwa [← Option.some.inj hline]
  · exact fun h => ⟨.line line, h, rfl⟩

theorem isHeader_scan (text : Text) : IsHeader (scan text).header := by
  intro line hline
  obtain ⟨hsingle, hheader⟩ := List.mem_filter.1 hline
  exact ⟨isKept_of_line_mem_pieces (mem_singles.1 hsingle), hheader⟩

theorem isBody_scan (text : Text) : IsBody (scan text).body where
  kept := by
    intro line hline
    obtain ⟨hsingle, hbody⟩ := List.mem_filter.1 (Text.stripWhile_subset hline)
    exact ⟨isKept_of_line_mem_pieces (mem_singles.1 hsingle), by simpa using hbody⟩
  stripped := Text.stripped_stripWhile _ _

/-- Without import statements, a scan only parts the lines of the text. -/
theorem scan_eq (h : ∀ line ∈ text.lines, startsImport line = false) :
    scan text =
      { specifiers := []
        header := text.lines.filter isHeaderLine
        body :=
          Text.stripWhile Text.isBlankLine (text.lines.filter fun l => !isHeaderLine l) } := by
  have hsingles : (text.lines.map Piece.line).filterMap Piece.line? = text.lines := by
    simp [List.filterMap_map, Function.comp_def, Piece.line?]
  have htargets : (text.lines.map Piece.line).filterMap Piece.target? = [] := by
    simp [List.filterMap_map, Function.comp_def, Piece.target?]
  simp only [scan, Scan.ofPieces, pieces_eq_map h, hsingles, htargets, List.eraseDups_nil]

end SolidityFlattener.Source
