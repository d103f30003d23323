import SolidityFlattener.Proofs.Artifact.FlatLines
import SolidityFlattener.Proofs.Graph.Levels

/-!
A flat text that is scanned and flattened again.

No line of the flat text starts an import statement, and its header lines are those of the root, so
a scan parts it into the header of the root and a body: what was written for the other files, then
the body of the root. Written down again, with nothing beside it, this gives the same text. The
blank lines in front of the body come back with the empty line after the header; those at its end
would not, so the body of the root must not be empty unless there is no other file.
-/

namespace SolidityFlattener

open Source (isHeaderLine startsImport)

variable {newline text line : Text} {base : Option Path} {root : Node} {files : List Node}

/-! ### Header lines and other lines -/

/-- The first line that is written for another file is a label. -/
theorem isBlankLine_head?_otherLines (h : line ∈ (otherLines root files base).head?) :
    Text.isBlankLine line = false := by
  unfold otherLines at h
  cases hothers : files.filter fun n => n.path != root.path with
  | nil => simp [hothers] at h
  | cons n rest =>
      obtain rfl : labelLine base n.path = line := by simpa [hothers, dependencyLines] using h
      exact isBlankLine_labelLine base n.path

section Lines

variable (hroot : root ∈ files) (hscanned : ∀ n ∈ files, n.Scanned)
  (hmarks : ∀ n ∈ files, n.path ≠ root.path → ¬isHeaderLine (label base n.path))
include hscanned hmarks

theorem not_isHeaderLine_of_mem_otherLines (h : line ∈ otherLines root files base) :
    ¬isHeaderLine line := by
  rcases mem_otherLines h with rfl | ⟨n, hn, hne, rfl | h⟩
  · decide
  · rw [isHeaderLine_labelLine]
    exact hmarks n hn hne
  · exact ((hscanned n hn).isBody.kept line h).2

include hroot

/-- The header lines of the flat text are those of the root. -/
theorem filter_isHeaderLine_flatLines :
    (flatLines root files base).filter isHeaderLine = root.header := by
  have hheader : (orBlank root.header).filter isHeaderLine = root.header := by
    by_cases hnil : root.header = []
    · rw [hnil]
      decide
    · rw [orBlank_of_ne_nil hnil, List.filter_eq_self]
      exact fun line hline => ((hscanned root hroot).isHeader line hline).2
  have hothers : (otherLines root files base).filter isHeaderLine = [] :=
    List.filter_eq_nil_iff.2 fun _ => not_isHeaderLine_of_mem_otherLines hscanned hmarks
  have hbody : (orBlank root.body).filter isHeaderLine = [] := by
    refine List.filter_eq_nil_iff.2 fun line hline => ?_
    rcases mem_orBlank hline with rfl | hline
    · decide
    · exact ((hscanned root hroot).isBody.kept line hline).2
  have hblank : [[]].filter isHeaderLine = [] := by decide
  rw [flatLines, List.filter_append, List.filter_append, List.filter_append, hheader, hblank,
    hothers, hbody]
  simp

/-- The other lines are blank ones, those of the other files, and the body of the root. -/
theorem exists_filter_not_isHeaderLine_flatLines :
    ∃ front, (∀ line ∈ front, Text.isBlankLine line) ∧
      ((flatLines root files base).filter fun line => !isHeaderLine line) =
        front ++ (otherLines root files base ++ orBlank root.body) := by
  refine ⟨(orBlank root.header ++ [[]]).filter fun line => !isHeaderLine line, ?_, ?_⟩
  · intro line hline
    obtain ⟨hline, hnot⟩ := List.mem_filter.1 hline
    have hline : line = [] ∨ line ∈ root.header := by
      rcases List.mem_append.1 hline with hline | hline
      · exact mem_orBlank hline
      · exact .inl (List.mem_singleton.1 hline)
    rcases hline with rfl | hline
    · rfl
    · simp [((hscanned root hroot).isHeader line hline).2] at hnot
  · rw [flatLines, List.append_assoc, List.filter_append]
    congr 1
    refine List.filter_eq_self.2 fun line hline => ?_
    rcases List.mem_append.1 hline with hline | hline
    · simpa using not_isHeaderLine_of_mem_otherLines hscanned hmarks hline
    · rcases mem_orBlank hline with rfl | hline
      · decide
      · simpa using ((hscanned root hroot).isBody.kept line hline).2

/-- What is left of the other lines without the blank ones around them. -/
theorem stripWhile_flatLines (hlast : root.body ≠ [] ∨ otherLines root files base = []) :
    Text.stripWhile Text.isBlankLine
        ((flatLines root files base).filter fun line => !isHeaderLine line) =
      otherLines root files base ++ root.body := by
  obtain ⟨front, hblank, hfront⟩ :=
    exists_filter_not_isHeaderLine_flatLines hroot hscanned hmarks
  obtain ⟨hfirst, hend⟩ := (hscanned root hroot).isBody.stripped
  rw [hfront, Text.stripWhile_append hblank]
  by_cases hnil : root.body = []
  · rw [hlast.resolve_left (not_not.2 hnil), hnil]
    rfl
  rw [orBlank_of_ne_nil hnil]
  refine Text.stripWhile_of_stripped ⟨?_, ?_⟩
  · intro line hline
    rw [List.head?_append] at hline
    cases hhead : (otherLines root files base).head? with
    | none => exact hfirst line (by simpa [hhead] using hline)
    | some first =>
        obtain rfl : first = line := by simpa [hhead] using hline
        exact isBlankLine_head?_otherLines hhead
  · intro line hline
    rw [List.getLast?_append_of_ne_nil _ hnil] at hline
    exact hend line hline

end Lines

/-- A file alone whose body is all that is written behind the header. -/
theorem flatLines_singleton {m : Node} (base' : Option Path)
    (hlast : root.body ≠ [] ∨ otherLines root files base = []) (hheader : m.header = root.header)
    (hbody : m.body = otherLines root files base ++ root.body) :
    flatLines m [m] base' = flatLines root files base := by
  have hnone : otherLines m [m] base' = [] := by simp [otherLines]
  rw [flatLines, hnone, hheader, hbody, flatLines]
  by_cases hnil : root.body = []
  · simp [hnil, hlast.resolve_left (not_not.2 hnil)]
  · simp [orBlank_of_ne_nil, hnil]

/-! ### Flattening again -/

/-- A flat text of scanned files scanned again, with labels that are on one line and hold no mark of
a header line: no import is found, and no header line but those of the root. Where the root has a
body or is alone, a registry of one file with the header and the body that are found has the same
flat text, whatever its path and the base are. -/
theorem flattening_flat_text_again (r : Registry) (hroot : root ∈ r.nodes)
    (hscanned : ∀ n ∈ r.nodes, n.Scanned) (hnewline : Text.IsLineEnd newline)
    (hlabels : ∀ n ∈ r.nodes, n.path ≠ root.path →
      (label base n.path).OneLine ∧ ¬isHeaderLine (label base n.path))
    (htext : flatText root r.nodes newline base = text) :
    (Source.scan text).specifiers = [] ∧ (Source.scan text).header = root.header ∧
      (∀ line ∈ text.lines, ¬startsImport line ∧ (isHeaderLine line → line ∈ root.header)) ∧
      (root.body ≠ [] ∨ r.nodes = [root] → ∀ (single : Registry) (m : Node) (base' : Option Path),
        single.nodes = [m] → m.header = (Source.scan text).header →
          m.body = (Source.scan text).body → flatText m single.nodes newline base' = text) := by
  have hone : ∀ n ∈ r.nodes, n.path ≠ root.path → (label base n.path).OneLine :=
    fun n hn hne => (hlabels n hn hne).1
  have hmarks : ∀ n ∈ r.nodes, n.path ≠ root.path → ¬isHeaderLine (label base n.path) :=
    fun n hn hne => (hlabels n hn hne).2
  have hlines : text.lines = flatLines root r.nodes base := by
    rw [← htext]
    exact lines_flatText hroot hscanned hone hnewline
  have hstarts : ∀ line ∈ text.lines, startsImport line = false := by
    rw [hlines]
    exact fun _ hline => (isKept_of_mem_flatLines hroot hscanned hone hline).startsImport
  have hfilter : text.lines.filter isHeaderLine = root.header := by
    rw [hlines]
    exact filter_isHeaderLine_flatLines hroot hscanned hmarks
  have hscan := Source.scan_eq hstarts
  have hheader : (Source.scan text).header = root.header := by
    rw [hscan]
    exact hfilter
  refine ⟨by rw [hscan], hheader, ?_, ?_⟩
  · intro line hline
    refine ⟨by simp [hstarts line hline], fun hmark => ?_⟩
    rw [← hfilter]
    exact List.mem_filter.2 ⟨hline, hmark⟩
  · intro hlast single m base' hsingle hmheader hmbody
    have hlast : root.body ≠ [] ∨ otherLines root r.nodes base = [] := by
      refine hlast.imp_right fun hone => ?_
      simp [hone, otherLines]
    have hbody : (Source.scan text).body = otherLines root r.nodes base ++ root.body := by
      rw [hscan, hlines]
      exact stripWhile_flatLines hroot hscanned hmarks hlast
    rw [hsingle, flatText_eq_joinLines, ← htext, flatText_eq_joinLines,
      flatLines_singleton base' hlast (hmheader.trans hheader) (hmbody.trans hbody)]

/-- A contract with a licence line. -/
def pairRoot (level : Option Int) : Node :=
  { Node.ofPath (.top "R.sol") with
    header := ["// SPDX-License-Identifier: MIT".toList]
    body := ["contract R \x7b".toList, [], "\x7d".toList]
    imports := [.top "L.sol"], level := level }

/-- A library with a compiler version line. -/
def pairLibrary (level : Option Int) : Node :=
  { Node.ofPath (.top "L.sol") with
    header := ["pragma solidity 0.8.0;".toList], body := ["library L \x7b\x7d".toList],
    level := level }

/-- A contract that imports a library. -/
def pair : Registry where
  nodes := [pairRoot none, pairLibrary none]
  nodup_paths := by decide

def leveledPair : Registry where
  nodes := [pairLibrary (some 2), pairRoot (some 1)]
  nodup_paths := by decide

theorem level_pair : pair.level = .ok leveledPair := by
  cbv

def pairRootText : Text :=
  "// SPDX-License-Identifier: MIT\nimport 'L.sol';\n\ncontract R \x7b\n\n\x7d\n".toList

def pairLibraryText : Text := "pragma solidity 0.8.0;\n\nlibrary L \x7b\x7d\n".toList

theorem scanned_pair : ∀ n ∈ leveledPair.nodes, n.Scanned := by
  intro n hn
  rcases List.mem_cons.1 hn with rfl | hn
  · exact ⟨⟨pairLibraryText, by decide +kernel⟩, pairLibraryText, by decide +kernel⟩
  · obtain rfl := List.mem_singleton.1 hn
    exact ⟨⟨pairRootText, by decide +kernel⟩, pairRootText, by decide +kernel⟩

theorem flattening_pair_again :
    pair.level = .ok leveledPair ∧
      ∃ text, flatText (pairRoot (some 1)) leveledPair.nodes "\r\n".toList none = text ∧
        (Source.scan text).specifiers = [] ∧
        (Source.scan text).header = (pairRoot (some 1)).header ∧
        ∃ (single : Registry) (m : Node), single.nodes = [m] ∧ m.path = .top "F.sol" ∧
          flatText m single.nodes "\r\n".toList none = text := by
  obtain ⟨text, htext⟩ :
      ∃ text, flatText (pairRoot (some 1)) leveledPair.nodes "\r\n".toList none = text := ⟨_, rfl⟩
  obtain ⟨hspecifiers, hheader, -, hagain⟩ := flattening_flat_text_again leveledPair
    (List.mem_cons_of_mem _ List.mem_cons_self) scanned_pair (.inr rfl) (by decide) htext
  let m : Node :=
    { Node.ofPath (.top "F.sol") with
      header := (Source.scan text).header, body := (Source.scan text).body }
  exact ⟨level_pair, text, htext, hspecifiers, hheader, ⟨[m], by simp⟩, m, rfl, rfl,
    hagain (.inl (by decide)) _ m none rfl rfl rfl⟩

end SolidityFlattener
