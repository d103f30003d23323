import SolidityFlattener.Proofs.Artifact.FlatLines
import SolidityFlattener.Proofs.Source.Slots

/-!
A compiler source read back.

The content of a compiler source has three sections: the header, the imports under bare file names,
and the body, with a blank line after each of the first two. Each import is a statement on a line of
its own, and no other line starts a statement. So the pieces of the content are its lines, and a
scan finds what the content was made from. The blank lines between the sections come before the
body, which is cleared of them.
-/

namespace SolidityFlattener

open Source (IsKept IsTarget Piece isHeaderLine isQuote startsImport endsStatement pieceOf)

variable {newline line name : Text} {lines : List Text} {n : Node}

/-- The statement that imports a file under its bare name. -/
def importLine (name : Text) : Text := "import \"".toList ++ name ++ "\";".toList

/-- The lines of the imports of a file. -/
def importLines (n : Node) : List Text := n.imports.map fun p => importLine p.name

/-- The lines before the body. -/
def preambleLines (n : Node) : List Text :=
  orBlank n.header ++ [[]] ++ orBlank (importLines n) ++ [[]]

/-- The lines of the content of a compiler source. -/
def contentLines (n : Node) : List Text := preambleLines n ++ orBlank n.body

theorem sourceContent_eq_joinLines (n : Node) (newline : Text) :
    sourceContent n newline = joinLines newline (contentLines n) := by
  have hsections : ∀ a b c : Text, (newline ++ newline).intercalate [a, b, c] =
      a ++ newline ++ newline ++ b ++ newline ++ newline ++ c := by
    intro a b c
    simp [List.intercalate]
  have himports : shortImports n newline = joinLines newline (importLines n) := rfl
  rw [sourceContent, hsections, himports, contentLines, preambleLines,
    joinLines_append (by simp) (orBlank_ne_nil _),
    joinLines_append (by simp [orBlank_ne_nil]) (by simp),
    joinLines_append (by simp) (orBlank_ne_nil _),
    joinLines_append (orBlank_ne_nil _) (by simp)]
  simp only [joinLines_orBlank, joinLines_singleton, List.append_nil]

/-! ### Import lines -/

theorem importLine_eq (name : Text) :
    importLine name = "import ".toList ++ '"' :: (name ++ '"' :: [';']) := rfl

theorem startsImport_importLine (name : Text) : startsImport (importLine name) := by
  have hfront : startsImport "import".toList := by decide
  exact Source.startsImport_append hfront (show Text.isWord ' ' = false by decide +kernel)

theorem endsStatement_importLine (name : Text) : endsStatement (importLine name) := by
  simp [importLine_eq, endsStatement]

theorem oneLine_importLine (h : name.OneLine) : (importLine name).OneLine :=
  Text.oneLine_append.2 ⟨Text.oneLine_append.2 ⟨by decide, h⟩, by decide⟩

/-- The name is read from an import line as it was written. -/
theorem target?_importLine (htarget : IsTarget name) (hslash : '\\' ∉ name) :
    Piece.target? (pieceOf (importLine name)) = some name := by
  have hfront : ∀ c ∈ "import ".toList, isQuote c = false := by simp [isQuote]
  have hspecifier : Source.specifier? (importLine name) = some (Text.forwardSlashes name) :=
    Source.specifier?_quoted hfront (show isQuote '"' by decide) htarget.unquoted
      (show isQuote '"' by decide)
  rw [Text.forwardSlashes_of_not_mem hslash] at hspecifier
  rw [pieceOf, if_pos (startsImport_importLine name)]
  simp [Piece.target?, hspecifier, htarget.ne_nil]

/-! ### The content by its lines -/

theorem mem_importLines (h : line ∈ importLines n) :
    ∃ p ∈ n.imports, line = importLine p.name := by
  obtain ⟨p, hp, rfl⟩ := List.mem_map.1 h
  exact ⟨p, hp, rfl⟩

theorem mem_preambleLines (h : line ∈ preambleLines n) :
    line = [] ∨ line ∈ n.header ∨ line ∈ importLines n := by
  simp only [preambleLines, List.mem_append, List.mem_singleton] at h
  rcases h with ((h | h) | h) | h
  · exact (mem_orBlank h).imp_right .inl
  · exact .inl h
  · exact (mem_orBlank h).imp_right .inr
  · exact .inl h

theorem mem_contentLines (h : line ∈ contentLines n) :
    line = [] ∨ line ∈ n.header ∨ line ∈ importLines n ∨ line ∈ n.body := by
  rcases List.mem_append.1 h with h | h
  · exact (mem_preambleLines h).imp_right (Or.imp_right .inl)
  · exact (mem_orBlank h).imp_right fun h => .inr (.inr h)

/-- A line of the content could have been kept by a scan, or imports a file. -/
theorem kept_or_mem_importLines (hn : n.Scanned) (h : line ∈ contentLines n) :
    IsKept line ∨ line ∈ importLines n := by
  rcases mem_contentLines h with rfl | h | h | h
  · exact .inl ⟨Text.oneLine_nil, rfl⟩
  · exact .inl (hn.isHeader line h).1
  · exact .inr h
  · exact .inl (hn.isBody.kept line h).1

/-- A selection that leaves out blank lines does not see the ones written for empty sections. -/
theorem filter_orBlank {p : Text → Bool} (hp : p [] = false) (lines : List Text) :
    (orBlank lines).filter p = lines.filter p := by
  unfold orBlank
  split
  · next h => simp [h, hp]
  · rfl

/-! ### The content scanned -/

/-- The single lines among pieces of one line each. -/
theorem filterMap_line?_map_pieceOf (lines : List Text) :
    (lines.map pieceOf).filterMap Piece.line? = lines.filter fun l => !startsImport l := by
  induction lines with
  | nil => rfl
  | cons line lines ih =>
      rw [List.map_cons, pieceOf]
      split_ifs with hstarts
      · rw [List.filter_cons_of_neg (by simp [hstarts]), ← ih]
        rfl
      · rw [List.filter_cons_of_pos (by simp [hstarts]), ← ih]
        rfl

/-- Lines that a scan keeps hold no targets. -/
theorem filterMap_target?_map_pieceOf (h : ∀ line ∈ lines, startsImport line = false) :
    (lines.map pieceOf).filterMap Piece.target? = [] := by
  refine List.filterMap_eq_nil_iff.2 fun piece hpiece => ?_
  obtain ⟨line, hline, rfl⟩ := List.mem_map.1 hpiece
  simp [pieceOf, h line hline, Piece.target?]

section Scanned

variable (hn : n.Scanned)
include hn

theorem startsImport_header (h : line ∈ orBlank n.header) : startsImport line = false := by
  rcases mem_orBlank h with rfl | h
  · rfl
  · exact (hn.isHeader line h).1.startsImport

theorem startsImport_body (h : line ∈ orBlank n.body) : startsImport line = false := by
  rcases mem_orBlank h with rfl | h
  · rfl
  · exact (hn.isBody.kept line h).1.startsImport

theorem pieces_contentLines : Source.pieces (contentLines n) = (contentLines n).map pieceOf := by
  refine Source.pieces_eq_map_pieceOf fun line hline hstarts => ?_
  rcases kept_or_mem_importLines hn hline with hkept | himport
  · simp [hkept.startsImport] at hstarts
  · obtain ⟨p, -, rfl⟩ := mem_importLines himport
    exact endsStatement_importLine p.name

/-- The targets in the content are the names of the imported files. -/
theorem targets_contentLines (hnames : ∀ p ∈ n.imports, IsTarget p.name ∧ '\\' ∉ p.name) :
    ((contentLines n).map pieceOf).filterMap Piece.target? = n.imports.map Path.name := by
  have himports : ((orBlank (importLines n)).map pieceOf).filterMap Piece.target? =
      n.imports.map Path.name := by
    -- without imports their section is a blank line, which has no target
    by_cases hnil : importLines n = []
    · have hnone : n.imports = [] := by simpa [importLines] using hnil
      rw [hnil, hnone]
      rfl
    · rw [orBlank_of_ne_nil hnil, importLines, List.map_map, List.filterMap_map,
        ← List.filterMap_eq_map]
      refine List.filterMap_congr fun p hp => ?_
      exact target?_importLine (hnames p hp).1 (hnames p hp).2
  have hblank : ([[]].map pieceOf).filterMap Piece.target? = [] := rfl
  simp only [contentLines, preambleLines, List.map_append, List.filterMap_append, himports, hblank,
    filterMap_target?_map_pieceOf fun line => startsImport_header hn,
    filterMap_target?_map_pieceOf fun line => startsImport_body hn, List.nil_append,
    List.append_nil]

theorem header_contentLines :
    ((contentLines n).filter fun l => !startsImport l).filter isHeaderLine = n.header := by
  have hheader : n.header.filter (fun l => isHeaderLine l && !startsImport l) = n.header := by
    refine List.filter_eq_self.2 fun line hline => ?_
    have h := hn.isHeader line hline
    simp [h.1.startsImport, h.2]
  have himports : (importLines n).filter (fun l => isHeaderLine l && !startsImport l) = [] := by
    refine List.filter_eq_nil_iff.2 fun line hline => ?_
    obtain ⟨p, -, rfl⟩ := mem_importLines hline
    simp [startsImport_importLine p.name]
  have hbody : n.body.filter (fun l => isHeaderLine l && !startsImport l) = [] := by
    refine List.filter_eq_nil_iff.2 fun line hline => ?_
    have h := (hn.isBody.kept line hline).2
    simp [h]
  have hblank : [[]].filter (fun l => isHeaderLine l && !startsImport l) = [] := rfl
  simp only [List.filter_filter, contentLines, preambleLines, List.filter_append, hblank,
    filter_orBlank (p := fun l => isHeaderLine l && !startsImport l) rfl, hheader, himports, hbody,
    List.append_nil]

/-- Before the body nothing but blank lines is left. -/
theorem isBlankLine_of_mem_preambleLines (h : line ∈ preambleLines n)
    (hstarts : startsImport line = false) (hheader : isHeaderLine line = false) :
    Text.isBlankLine line := by
  rcases mem_preambleLines h with rfl | h | h
  · rfl
  · simp [(hn.isHeader line h).2] at hheader
  · obtain ⟨p, -, rfl⟩ := mem_importLines h
    simp [startsImport_importLine p.name] at hstarts

theorem body_contentLines :
    Text.stripWhile Text.isBlankLine
      (((contentLines n).filter fun l => !startsImport l).filter fun l => !isHeaderLine l) =
      n.body := by
  have hbody : (orBlank n.body).filter (fun l => !isHeaderLine l && !startsImport l) =
      orBlank n.body := by
    refine List.filter_eq_self.2 fun line hline => ?_
    rcases mem_orBlank hline with rfl | hline
    · rfl
    · have h := hn.isBody.kept line hline
      simp [h.1.startsImport, h.2]
  have hblank : ∀ line ∈ (preambleLines n).filter (fun l => !isHeaderLine l && !startsImport l),
      Text.isBlankLine line := by
    intro line hline
    obtain ⟨hline, hleft⟩ := List.mem_filter.1 hline
    rw [Bool.and_eq_true, Bool.not_eq_true', Bool.not_eq_true'] at hleft
    exact isBlankLine_of_mem_preambleLines hn hline hleft.2 hleft.1
  rw [List.filter_filter, contentLines, List.filter_append, Text.stripWhile_append hblank, hbody]
  -- an empty body is written as one blank line, which is stripped like those before it
  by_cases hnil : n.body = []
  · rw [hnil]
    rfl
  · rw [orBlank_of_ne_nil hnil]
    exact Text.stripWhile_of_stripped hn.isBody.stripped

theorem lines_sourceContent (hnewline : Text.IsLineBreak newline)
    (hnames : ∀ p ∈ n.imports, p.name.OneLine) :
    (sourceContent n newline).lines = contentLines n := by
  have hlines : ∀ line ∈ contentLines n, line.OneLine := by
    intro line hline
    rcases kept_or_mem_importLines hn hline with hkept | himport
    · exact hkept.oneLine
    · obtain ⟨p, hp, rfl⟩ := mem_importLines himport
      exact oneLine_importLine (hnames p hp)
  rw [sourceContent_eq_joinLines]
  exact Text.lines_intercalate_of_isLineBreak hnewline hlines
    (by simp [contentLines, preambleLines])

/-- A compiler source is read back as what it was made from: the header and the body of its file,
and the names of the files it imports, each where it is named first. -/
theorem scan_sourceContent (hnewline : Text.IsLineBreak newline)
    (hnames : ∀ p ∈ n.imports, IsTarget p.name ∧ '\\' ∉ p.name) :
    Source.scan (sourceContent n newline) =
      { specifiers := (n.imports.map Path.name).eraseDups
        header := n.header
        body := n.body } := by
  have hlines := lines_sourceContent hn hnewline fun p hp => (hnames p hp).1.oneLine
  simp only [Source.scan, Source.Scan.ofPieces, hlines, pieces_contentLines hn,
    filterMap_line?_map_pieceOf, targets_contentLines hn hnames, header_contentLines hn,
    body_contentLines hn]

end Scanned

/-- A text without a header that imports three files, two of them of one name. -/
def threeImportsText : Text :=
  "import 'a/L.sol';\nimport 'M.sol';\nimport 'b/L.sol';\n\ncontract R \x7b\n\x7d\n".toList

def threeImports : Node :=
  { Node.ofPath ⟨.root, ["R.sol".toList]⟩ with
    body := ["contract R \x7b".toList, "\x7d".toList]
    imports := [⟨.root, ["a".toList, "L.sol".toList]⟩, ⟨.root, ["M.sol".toList]⟩,
      ⟨.root, ["b".toList, "L.sol".toList]⟩] }

theorem scanned_threeImports : threeImports.Scanned :=
  ⟨⟨threeImportsText, by decide +kernel⟩, threeImportsText, by decide +kernel⟩

theorem scan_sourceContent_threeImports :
    ∃ content, sourceContent threeImports ['\r'] = content ∧
      Source.scan content =
        { specifiers := ["L.sol".toList, "M.sol".toList]
          header := []
          body := threeImports.body } := by
  have hnames : ∀ p ∈ threeImports.imports, IsTarget p.name ∧ '\\' ∉ p.name := by
    simp only [threeImports, List.forall_mem_cons]
    refine ⟨?_, ?_, ?_, List.forall_mem_nil _⟩ <;>
      exact ⟨⟨by decide, by decide, by simp [isQuote, Path.name]⟩, by decide⟩
  exact ⟨_, rfl, scan_sourceContent scanned_threeImports (.inr rfl) hnames⟩

end SolidityFlattener
