import SolidityFlattener.Proofs.Source.Scan

/-!
A source text cut into statements and single lines, told without the walk along its lines.

A cut of some lines is a list of pieces that are these lines put together again. A single line
starts no import; a statement starts with a line that does, and none of its lines but the last one
ends it. The last line of a statement does end it, unless nothing follows. There is exactly one such
cut, the one that `pieces` walks through, so a scan can be read off any cut that is given.
-/

namespace SolidityFlattener.Source

namespace Piece

def lines : Piece → List Text
  | statement lines => lines
  | line l => [l]

/-- A piece that can stand in a cut. -/
def Proper : Piece → Prop
  | statement lines => (∃ first more, lines = first :: more ∧ startsImport first) ∧
      ∀ l ∈ lines.dropLast, endsStatement l = false
  | line l => startsImport l = false

/-- A piece after which another one can follow. -/
def Closed : Piece → Prop
  | statement lines => ∃ last ∈ lines.getLast?, endsStatement last
  | line _ => True

end Piece

/-- A cut of lines into statements and single lines. -/
structure IsCut (lines : List Text) (ps : List Piece) : Prop where
  joined : ps.flatMap Piece.lines = lines
  proper : ∀ piece ∈ ps, piece.Proper
  closed : ∀ piece ∈ ps.dropLast, piece.Closed

variable {lines more opened : List Text} {line last text : Text} {piece : Piece}
  {ps : List Piece}

namespace IsCut

theorem nil : IsCut [] [] := ⟨rfl, by simp, by simp⟩

theorem single (h : piece.Proper) : IsCut piece.lines [piece] :=
  ⟨by simp, by simpa using h, by simp⟩

theorem cons (h : IsCut lines ps) (hproper : piece.Proper) (hclosed : piece.Closed) :
    IsCut (piece.lines ++ lines) (piece :: ps) where
  joined := by rw [List.flatMap_cons, h.joined]
  proper := List.forall_mem_cons.2 ⟨hproper, h.proper⟩
  closed := by
    intro other hother
    cases ps with
    | nil => simp at hother
    | cons second rest =>
        rw [List.dropLast_cons_cons] at hother
        rcases List.mem_cons.1 hother with rfl | hother
        · exact hclosed
        · exact h.closed other hother

theorem tail (h : IsCut lines (piece :: ps)) : IsCut (ps.flatMap Piece.lines) ps where
  joined := rfl
  proper := fun other hother => h.proper other (List.mem_cons_of_mem _ hother)
  closed := by
    intro other hother
    refine h.closed other ?_
    cases ps with
    | nil => simp at hother
    | cons second rest =>
        rw [List.dropLast_cons_cons]
        exact List.mem_cons_of_mem _ hother

/-- A piece that another one follows is closed. -/
theorem closed_head (h : IsCut lines (piece :: ps)) (hne : ps ≠ []) : piece.Closed := by
  refine h.closed piece ?_
  obtain ⟨second, rest, rfl⟩ := List.exists_cons_of_ne_nil hne
  rw [List.dropLast_cons_cons]
  exact List.mem_cons_self

end IsCut

/-! ### The walk makes a cut -/

/-- Lines of a statement that is still open. -/
structure IsOpen (held : List Text) : Prop where
  starts : ∃ first more, held = first :: more ∧ startsImport first
  ends : ∀ l ∈ held, endsStatement l = false

theorem IsOpen.proper (h : IsOpen opened) : (Piece.statement opened).Proper :=
  ⟨h.starts, fun l hl => h.ends l (List.dropLast_subset _ hl)⟩

theorem IsOpen.concat_proper (h : IsOpen opened) : (Piece.statement (opened ++ [line])).Proper := by
  obtain ⟨first, more, rfl, hstarts⟩ := h.starts
  refine ⟨⟨first, more ++ [line], rfl, hstarts⟩, ?_⟩
  rw [List.dropLast_concat]
  exact h.ends

theorem IsOpen.concat (h : IsOpen opened) (hline : endsStatement line = false) :
    IsOpen (opened ++ [line]) := by
  obtain ⟨first, more, rfl, hstarts⟩ := h.starts
  refine ⟨⟨first, more ++ [line], rfl, hstarts⟩, ?_⟩
  intro l hl
  rcases List.mem_append.1 hl with hl | hl
  · exact h.ends l hl
  · rwa [List.mem_singleton.1 hl]

theorem isCut_piecesAfter (held : Option (List Text)) (lines : List Text)
    (hheld : ∀ opened ∈ held, IsOpen opened) :
    IsCut (held.getD [] ++ lines) (piecesAfter held lines) := by
  fun_induction piecesAfter held lines with
  | case1 => exact .nil
  | case2 opened =>
      rw [List.append_nil]
      exact .single (hheld opened rfl).proper
  | case3 l rest hstarts hends ih =>
      have hproper : (Piece.statement [l]).Proper := ⟨⟨l, [], rfl, hstarts⟩, by simp⟩
      exact (ih (by simp)).cons hproper ⟨l, rfl, hends⟩
  | case4 l rest hstarts hends ih =>
      refine ih ?_
      rintro opened ⟨⟩
      exact ⟨⟨l, [], rfl, hstarts⟩, by simpa using hends⟩
  | case5 l rest hstarts ih =>
      have hproper : (Piece.line l).Proper := Bool.eq_false_iff.2 hstarts
      exact (ih (by simp)).cons hproper trivial
  | case6 opened l rest hends ih =>
      have hclosed : (Piece.statement (opened ++ [l])).Closed := ⟨l, by simp, hends⟩
      have hcut := (ih (by simp)).cons (hheld opened rfl).concat_proper hclosed
      simpa [Piece.lines] using hcut
  | case7 opened l rest hends ih =>
      have hopen := (hheld opened rfl).concat (by simpa using hends)
      have hcut := ih (by rintro _ ⟨⟩; exact hopen)
      simpa using hcut

theorem isCut_pieces (lines : List Text) : IsCut lines (pieces lines) :=
  isCut_piecesAfter none lines (by simp)

/-! ### There is no other -/

/-- An open statement goes on to the first line that ends it. -/
theorem piecesAfter_some_append (hopen : ∀ l ∈ more, endsStatement l = false)
    (hlast : endsStatement last) :
    piecesAfter (some opened) (more ++ last :: lines) =
      .statement (opened ++ more ++ [last]) :: pieces lines := by
  induction more generalizing opened with
  | nil => simp [piecesAfter, hlast, pieces]
  | cons l more ih =>
      have hrest : piecesAfter (some (opened ++ [l])) (more ++ last :: lines) = _ :=
        ih fun other hother => hopen other (List.mem_cons_of_mem l hother)
      rw [List.cons_append, piecesAfter, hopen l List.mem_cons_self]
      simpa using hrest

/-- If there is none, it takes all the lines. -/
theorem piecesAfter_some (hopen : ∀ l ∈ more.dropLast, endsStatement l = false) :
    piecesAfter (some opened) more = [.statement (opened ++ more)] := by
  induction more generalizing opened with
  | nil => simp [piecesAfter]
  | cons l more ih =>
      rw [piecesAfter]
      cases more with
      | nil => split_ifs <;> simp [piecesAfter]
      | cons second rest =>
          rw [List.dropLast_cons_cons] at hopen
          rw [hopen l List.mem_cons_self]
          have hrest : piecesAfter (some (opened ++ [l])) (second :: rest) = _ :=
            ih fun other hother => hopen other (List.mem_cons_of_mem l hother)
          simpa using hrest

/-- The walk takes a statement that is closed as one piece. -/
theorem pieces_statement_append {stated : List Text} (hproper : (Piece.statement stated).Proper)
    (hclosed : (Piece.statement stated).Closed) :
    pieces (stated ++ lines) = .statement stated :: pieces lines := by
  obtain ⟨⟨first, more, rfl, hstarts⟩, hopen⟩ := hproper
  obtain ⟨last, hlast, hends⟩ := hclosed
  induction more using List.reverseRecOn with
  | nil =>
      obtain rfl : first = last := by simpa using hlast
      simp [pieces, piecesAfter, hstarts, hends]
  | append_singleton more l =>
      rw [← List.cons_append] at hlast hopen
      obtain rfl : l = last := by simpa only [List.getLast?_concat, Option.mem_some_iff] using hlast
      rw [List.dropLast_concat, List.forall_mem_cons] at hopen
      have hrest : piecesAfter (some [first]) (more ++ l :: lines) = _ :=
        piecesAfter_some_append hopen.2 hends
      simpa [pieces, piecesAfter, hstarts, hopen.1] using hrest

/-- At the end of the lines it need not be closed. -/
theorem pieces_statement {stated : List Text} (hproper : (Piece.statement stated).Proper) :
    pieces stated = [.statement stated] := by
  obtain ⟨⟨first, more, rfl, hstarts⟩, hopen⟩ := hproper
  cases more with
  | nil => simp [pieces, piecesAfter, hstarts]
  | cons second rest =>
      rw [List.dropLast_cons_cons, List.forall_mem_cons] at hopen
      have hrest : piecesAfter (some [first]) (second :: rest) = _ := piecesAfter_some hopen.2
      simpa [pieces, piecesAfter, hstarts, hopen.1] using hrest

theorem IsCut.eq_pieces (h : IsCut lines ps) : ps = pieces lines := by
  induction ps generalizing lines with
  | nil =>
      obtain rfl : [] = lines := h.joined
      rfl
  | cons piece ps ih =>
      have hproper := h.proper piece List.mem_cons_self
      rw [← h.joined, List.flatMap_cons]
      cases piece with
      | line l =>
          have hline : startsImport l = false := hproper
          have hrest := ih h.tail
          simpa [pieces, piecesAfter, Piece.lines, hline] using hrest
      | statement stated =>
          by_cases hne : ps = []
          · simpa [hne, Piece.lines] using (pieces_statement hproper).symm
          · rw [Piece.lines, pieces_statement_append hproper (h.closed_head hne), ← ih h.tail]

/-- The pieces of some lines are their only cut. -/
theorem isCut_iff : IsCut lines ps ↔ ps = pieces lines := by
  constructor
  · exact IsCut.eq_pieces
  · rintro rfl
    exact isCut_pieces lines

/-! ### What a scan keeps of a cut -/

/-- A scan of a text read off the cut of its lines, which there is one of. The header lines are the
single lines with a header mark, in their order. The body lines are the other single lines in their
order, less blank lines at both ends and with no blank line left at either; so every single line is
accounted for, once. The specifiers are the targets of the statements that have one, where they are
met first. No line that is kept holds a part of a line break. -/
theorem scan_of_cut (text : Text) :
    (∃ ps, IsCut text.lines ps) ∧ ∀ ps, IsCut text.lines ps →
      (scan text).header = (ps.filterMap Piece.line?).filter isHeaderLine ∧
      (∃ front back,
        (ps.filterMap Piece.line?).filter (fun l => !isHeaderLine l) =
          front ++ (scan text).body ++ back ∧
        (∀ l ∈ front ++ back, Text.isBlankLine l) ∧
        Text.Stripped Text.isBlankLine (scan text).body ∧
        ((scan text).header ++ (front ++ (scan text).body ++ back)).Perm
          (ps.filterMap Piece.line?)) ∧
      (scan text).specifiers = (ps.filterMap Piece.target?).eraseDups ∧
      ∀ l ∈ (scan text).header ++ (scan text).body, l.OneLine := by
  refine ⟨⟨_, isCut_pieces text.lines⟩, ?_⟩
  rintro ps hcut
  obtain rfl := isCut_iff.1 hcut
  obtain ⟨front, back, hbody, hfront, hback⟩ := Text.exists_append_stripWhile_append
    Text.isBlankLine (((pieces text.lines).filterMap Piece.line?).filter fun l => !isHeaderLine l)
  refine ⟨rfl, ⟨front, back, hbody, ?_, (isBody_scan text).stripped, ?_⟩, rfl, ?_⟩
  · exact fun l hl => (List.mem_append.1 hl).elim (hfront l) (hback l)
  · show ((((pieces text.lines).filterMap Piece.line?).filter isHeaderLine) ++ _).Perm _
    rw [show front ++ (scan text).body ++ back = _ from hbody.symm]
    exact List.filter_append_perm _ _
  · intro l hl
    rcases List.mem_append.1 hl with hl | hl
    · exact (isHeader_scan text l hl).1.oneLine
    · exact ((isBody_scan text).kept l hl).1.oneLine

/-- A text with all kinds of line breaks, a statement on three lines, a header line below it and a
statement that is left open. -/
def mixedText : Text :=
  ("\nimport \x7b\r  A\r\n\x7d from \"./A.sol\";\rpragma solidity 1;\n\n" ++
    "contract B \x7b\x7d\n\nimport \"C\"").toList

theorem scan_mixedText_of_cut :
    ∃ ps, IsCut mixedText.lines ps ∧ ps.length = 7 ∧
      (scan mixedText).header = ["pragma solidity 1;".toList] ∧
      (scan mixedText).body = ["contract B \x7b\x7d".toList] ∧
      (scan mixedText).specifiers = ["./A.sol".toList, "C".toList] := by
  obtain ⟨-, hscan⟩ := scan_of_cut mixedText
  obtain ⟨hheader, -, hspecifiers, -⟩ := hscan _ (isCut_pieces mixedText.lines)
  refine ⟨_, isCut_pieces mixedText.lines, by decide +kernel, ?_, by decide +kernel, ?_⟩
  · rw [hheader]
    decide +kernel
  · rw [hspecifiers]
    decide +kernel

end SolidityFlattener.Source
