import SolidityFlattener.Proofs.Artifact.Labels

/-!
The flat text line by line.

It is put together from blocks, and some of these are joined lines themselves. `flatLines` lists
all its lines, an empty one for a header or a body without any. Where the files are scanned and no
label holds a part of a line break, they are the lines of the flat text, and also what it is cut
into at its separator.
-/

namespace SolidityFlattener

open Source (IsKept IsHeader IsBody)

variable {newline line : Text} {lines more : List Text} {base : Option Path} {root : Node}
  {files : List Node}

/-! ### Joined lines -/

/-- The lines that joined lines take up. -/
def orBlank (lines : List Text) : List Text := if lines = [] then [[]] else lines

@[simp] theorem orBlank_nil : orBlank [] = [[]] := rfl

theorem orBlank_of_ne_nil (h : lines ≠ []) : orBlank lines = lines := if_neg h

theorem orBlank_ne_nil (lines : List Text) : orBlank lines ≠ [] := by
  unfold orBlank
  split
  · simp
  · assumption

theorem mem_orBlank (h : line ∈ orBlank lines) : line = [] ∨ line ∈ lines := by
  unfold orBlank at h
  split at h
  · exact .inl (by simpa using h)
  · exact .inr h

@[simp] theorem joinLines_nil (newline : Text) : joinLines newline [] = [] :=
  List.intercalate_nil

@[simp] theorem joinLines_singleton (newline line : Text) : joinLines newline [line] = line :=
  List.intercalate_singleton

theorem joinLines_cons (line : Text) (h : lines ≠ []) :
    joinLines newline (line :: lines) = line ++ newline ++ joinLines newline lines :=
  List.intercalate_cons_of_ne_nil h

@[simp] theorem joinLines_orBlank (newline : Text) (lines : List Text) :
    joinLines newline (orBlank lines) = joinLines newline lines := by
  unfold orBlank
  split
  · next h => simp [h, joinLines]
  · rfl

theorem joinLines_append (hlines : lines ≠ []) (hmore : more ≠ []) :
    joinLines newline (lines ++ more) =
      joinLines newline lines ++ newline ++ joinLines newline more := by
  induction lines with
  | nil => exact absurd rfl hlines
  | cons line lines ih =>
      by_cases hnil : lines = []
      · rw [hnil, List.singleton_append, joinLines_cons line hmore, joinLines_singleton]
      · have hne : lines ++ more ≠ [] := by simp [hnil]
        rw [List.cons_append, joinLines_cons line hne, ih hnil, joinLines_cons line hnil]
        simp

/-- Blocks of joined lines are joined as all their lines are. -/
theorem joinLines_map_joinLines (newline : Text) (blocks : List (List Text)) :
    joinLines newline (blocks.map (joinLines newline)) =
      joinLines newline (blocks.flatMap orBlank) := by
  induction blocks with
  | nil => rfl
  | cons block blocks ih =>
      by_cases hnil : blocks = []
      · simp [hnil]
      · have hmap : blocks.map (joinLines newline) ≠ [] := by simpa using hnil
        have hflat : blocks.flatMap orBlank ≠ [] := by
          obtain ⟨next, rest, rfl⟩ := List.exists_cons_of_ne_nil hnil
          simp [orBlank_ne_nil]
        rw [List.map_cons, joinLines_cons _ hmap, ih, List.flatMap_cons,
          joinLines_append (orBlank_ne_nil block) hflat, joinLines_orBlank]

/-! ### The lines of the flat text -/

/-- The lines of a file other than the root, block by block. -/
def dependencyParts (base : Option Path) (n : Node) : List (List Text) :=
  [[labelLine base n.path], [], n.body, []]

/-- The lines that are written for a file other than the root. -/
def dependencyLines (base : Option Path) (n : Node) : List Text :=
  [labelLine base n.path, []] ++ orBlank n.body ++ [[]]

/-- The lines that are written for all files but the root. -/
def otherLines (root : Node) (files : List Node) (base : Option Path) : List Text :=
  (files.filter fun n => n.path != root.path).flatMap (dependencyLines base)

/-- The lines that are written for a root over files in order. -/
def flatLines (root : Node) (files : List Node) (base : Option Path) : List Text :=
  orBlank root.header ++ [[]] ++ otherLines root files base ++ orBlank root.body

theorem dependencyBlocks_eq (newline : Text) (base : Option Path) :
    dependencyBlocks newline base = fun n => (dependencyParts base n).map (joinLines newline) := by
  funext n
  have hblocks : dependencyBlocks newline base n =
      [labelLine base n.path, [], joinLines newline n.body, []] := rfl
  simp [dependencyParts, hblocks]

theorem flatMap_orBlank_dependencyParts (base : Option Path) (n : Node) :
    (dependencyParts base n).flatMap orBlank = dependencyLines base n := by
  simp [dependencyParts, dependencyLines, orBlank_of_ne_nil]

theorem flatText_eq_joinLines (root : Node) (files : List Node) (newline : Text)
    (base : Option Path) :
    flatText root files newline base = joinLines newline (flatLines root files base) := by
  have hblocks : flatText root files newline base = joinLines newline
      (([root.header, []] ++
        (files.filter fun n => n.path != root.path).flatMap (dependencyParts base) ++
        [root.body]).map (joinLines newline)) := by
    simp only [flatText, dependencyBlocks_eq, List.map_append, List.map_cons, List.map_nil,
      List.map_flatMap, joinLines_nil]
  rw [hblocks, joinLines_map_joinLines, flatLines, otherLines]
  simp [List.flatMap_assoc, flatMap_orBlank_dependencyParts]

theorem flatLines_ne_nil : flatLines root files base ≠ [] := by
  simp [flatLines]

/-- What is written for other files: their labels and bodies, and empty lines around them. -/
theorem mem_otherLines (h : line ∈ otherLines root files base) :
    line = [] ∨
      ∃ n ∈ files, n.path ≠ root.path ∧ (line = labelLine base n.path ∨ line ∈ n.body) := by
  obtain ⟨n, hn, hline⟩ := List.mem_flatMap.1 h
  obtain ⟨hn, hroot⟩ := List.mem_filter.1 hn
  have hroot : n.path ≠ root.path := by simpa using hroot
  simp only [dependencyLines, List.mem_append, List.mem_cons, List.not_mem_nil, or_false] at hline
  rcases hline with ((hline | hline) | hline) | hline
  · exact .inr ⟨n, hn, hroot, .inl hline⟩
  · exact .inl hline
  · exact (mem_orBlank hline).imp_right fun hline => ⟨n, hn, hroot, .inr hline⟩
  · exact .inl hline

/-- What is written for other files depends on nothing but their paths and bodies. -/
theorem otherLines_eq_flatMap (bodies : Path → List Text)
    (h : ∀ n ∈ files, n.body = bodies n.path) :
    otherLines root files base =
      ((files.map Node.path).filter (· != root.path)).flatMap fun p =>
        [labelLine base p, []] ++ orBlank (bodies p) ++ [[]] := by
  rw [otherLines, List.filter_map, List.flatMap_map]
  refine List.flatMap_congr fun n hn => ?_
  rw [dependencyLines, h n (List.mem_filter.1 hn).1]

theorem mem_flatLines (h : line ∈ flatLines root files base) :
    line = [] ∨ line ∈ root.header ∨ line ∈ otherLines root files base ∨ line ∈ root.body := by
  simp only [flatLines, List.mem_append, List.mem_singleton] at h
  rcases h with ((h | h) | h) | h
  · exact (mem_orBlank h).imp_right .inl
  · exact .inl h
  · exact .inr (.inr (.inl h))
  · exact (mem_orBlank h).imp_right fun h => .inr (.inr h)

/-! ### Scanned files -/

/-- A file whose header and body are those of scanned texts. -/
def Node.Scanned (n : Node) : Prop :=
  (∃ text, n.header = (Source.scan text).header) ∧ ∃ text, n.body = (Source.scan text).body

theorem Node.Scanned.isHeader {n : Node} (h : n.Scanned) : IsHeader n.header := by
  obtain ⟨⟨text, hheader⟩, -⟩ := h
  rw [hheader]
  exact Source.isHeader_scan text

theorem Node.Scanned.isBody {n : Node} (h : n.Scanned) : IsBody n.body := by
  obtain ⟨-, text, hbody⟩ := h
  rw [hbody]
  exact Source.isBody_scan text

section Scanned

variable (hroot : root ∈ files) (hscanned : ∀ n ∈ files, n.Scanned)
  (hlabels : ∀ n ∈ files, n.path ≠ root.path → (label base n.path).OneLine)
include hroot hscanned hlabels

/-- All lines of a flat text could have been kept by a scan. -/
theorem isKept_of_mem_flatLines (h : line ∈ flatLines root files base) : IsKept line := by
  have hblank : IsKept [] := ⟨Text.oneLine_nil, rfl⟩
  rcases mem_flatLines h with rfl | h | h | h
  · exact hblank
  · exact ((hscanned root hroot).isHeader line h).1
  · rcases mem_otherLines h with rfl | ⟨n, hn, hne, rfl | h⟩
    · exact hblank
    · exact ⟨oneLine_labelLine (hlabels n hn hne), startsImport_labelLine base n.path⟩
    · exact ((hscanned n hn).isBody.kept line h).1
  · exact ((hscanned root hroot).isBody.kept line h).1

theorem lines_flatText (hnewline : Text.IsLineEnd newline) :
    (flatText root files newline base).lines = flatLines root files base := by
  rw [flatText_eq_joinLines]
  exact Text.lines_intercalate hnewline
    (fun line hline => (isKept_of_mem_flatLines hroot hscanned hlabels hline).oneLine)
    flatLines_ne_nil

theorem cutAt_flatText (hnewline : Text.IsLineEnd newline) :
    Text.cutAt newline (flatText root files newline base) = flatLines root files base := by
  rw [flatText_eq_joinLines]
  exact Text.cutAt_intercalate hnewline
    (fun line hline => (isKept_of_mem_flatLines hroot hscanned hlabels hline).oneLine)
    flatLines_ne_nil

end Scanned

end SolidityFlattener
