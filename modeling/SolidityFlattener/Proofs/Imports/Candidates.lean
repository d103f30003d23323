import SolidityFlattener.Imports.Candidate
import SolidityFlattener.Proofs.Path

/-!
Import targets that start with `./`.

The marker is a component that means nothing, so a target without it leads to the same place as long
as what is left is read as a relative path. Where what is left starts with a slash, as in `.//A.sol`
or `./\A.sol`, the marker was all that kept the target relative: without it the target is a path
from the root, and the directory of the importing file is forgotten.
-/

namespace SolidityFlattener

namespace Path

variable {p source : Path} {text : Text}

/-- A text that starts with no slash is read as a relative path. -/
theorem anchor_ofText_of_head? (h : text.head? ≠ some '/') : Anchor.ofText text = .relative :=
  anchor_ofText_append .relative h

theorem joinText_of_head? (h : text.head? ≠ some '/') :
    p.joinText text = ⟨p.anchor, p.parts ++ components text⟩ := by
  rw [joinText, join, ofText, anchor_ofText_of_head? h]

theorem isAbsolute_ofText (h : text.head? = some '/') : (ofText text).isAbsolute := by
  obtain ⟨rest, rfl⟩ := List.head?_eq_some_iff.1 h
  rw [isAbsolute, ofText]
  unfold Anchor.ofText
  split <;> simp_all

theorem joinText_of_absolute (h : text.head? = some '/') : p.joinText text = ofText text :=
  join_of_isAbsolute (isAbsolute_ofText h)

@[simp] theorem components_marker (text : Text) :
    components ('.' :: '/' :: text) = components text :=
  components_append_slash ['.'] text

/-- Where an import target leads if it is read from the directory of the importing file. -/
def beside (source : Path) (specifier : Text) : Path :=
  ⟨source.parent.anchor, source.parent.parts ++ components (Text.forwardSlashes specifier)⟩

/-- The directory of the importing file is at the front of such a path. -/
theorem relativeTo?_beside (source : Path) (specifier : Text) :
    (source.beside specifier).relativeTo? source.parent =
      some ⟨.relative, components (Text.forwardSlashes specifier)⟩ :=
  relativeTo?_eq_some_iff.2 ⟨rfl, rfl⟩

end Path

variable {source : Path} {specifier rest : Text} {packageRoot : Option Path}

theorem candidate?_of_marker (h : Text.forwardSlashes specifier = '.' :: '/' :: rest) :
    candidate? source specifier packageRoot = some (source.parent.joinText rest) := by
  simp only [candidate?, h]

/-- The marker taken off, a target leads where it leads with the marker. -/
theorem candidate?_of_relative (h : Text.forwardSlashes specifier = '.' :: '/' :: rest)
    (hrest : rest.head? ≠ some '/') :
    candidate? source specifier packageRoot = some (source.beside specifier) := by
  rw [candidate?_of_marker h, Path.joinText_of_head? hrest, Path.beside, h, Path.components_marker]

/-- The marker taken off, a target is a path from the root. -/
theorem candidate?_of_absolute (h : Text.forwardSlashes specifier = '.' :: '/' :: rest)
    (hrest : rest.head? = some '/') :
    candidate? source specifier packageRoot = some (Path.ofText rest) := by
  rw [candidate?_of_marker h, Path.joinText_of_absolute hrest]

/-- Without a marker of its own a target may have one put in front. -/
theorem candidate?_marker (hpackage : (Text.forwardSlashes specifier).head? ≠ some '@')
    (hmarker : ¬ ['.', '/', '/'] <+: Text.forwardSlashes specifier) :
    candidate? source ('.' :: '/' :: specifier) packageRoot =
      candidate? source specifier packageRoot := by
  have hslashes : Text.forwardSlashes ('.' :: '/' :: specifier) =
      '.' :: '/' :: Text.forwardSlashes specifier := rfl
  rw [candidate?_of_marker hslashes]
  unfold candidate?
  split
  · next rest h => simp [h] at hpackage
  · next rest h =>
      have hrest : rest.head? ≠ some '/' := by
        intro hhead
        obtain ⟨rest, rfl⟩ := List.head?_eq_some_iff.1 hhead
        exact hmarker ⟨rest, h.symm⟩
      rw [h, Path.joinText_of_head? hrest, Path.joinText_of_head? (by simp),
        Path.components_marker]
  · rfl

/-- A target that starts with `./`, read with slashes of one kind, leads to where its components
lead from the directory of the importing file, whose path is at the front, if no slash follows the
marker. If one follows, what is left is a path from the root, whatever the importing file and the
package root are. A target that starts with neither `@` nor `.//` leads to one place with the marker
in front and without it. -/
theorem explicit_relative_candidate (source : Path) (packageRoot : Option Path) :
    (∀ specifier rest, Text.forwardSlashes specifier = '.' :: '/' :: rest →
      (rest.head? ≠ some '/' →
        candidate? source specifier packageRoot = some (source.beside specifier) ∧
          (source.beside specifier).relativeTo? source.parent =
            some ⟨.relative, Path.components (Text.forwardSlashes specifier)⟩) ∧
      (rest.head? = some '/' →
        candidate? source specifier packageRoot = some (Path.ofText rest) ∧
          (Path.ofText rest).isAbsolute)) ∧
    ∀ specifier, (Text.forwardSlashes specifier).head? ≠ some '@' →
      ¬ ['.', '/', '/'] <+: Text.forwardSlashes specifier →
        candidate? source ('.' :: '/' :: specifier) packageRoot =
          candidate? source specifier packageRoot := by
  constructor
  · intro specifier rest h
    constructor
    · intro hrest
      exact ⟨candidate?_of_relative h hrest, Path.relativeTo?_beside source specifier⟩
    · intro hrest
      exact ⟨candidate?_of_absolute h hrest, Path.isAbsolute_ofText hrest⟩
  · exact fun specifier => candidate?_marker

/-- A file that imports. -/
def importingFile : Path := ⟨.root, ["w".toList, "R.sol".toList]⟩

theorem explicit_relative_candidate_of_lib :
    candidate? importingFile ".\\lib//A.sol".toList none =
      some ⟨.root, ["w".toList, "lib".toList, "A.sol".toList]⟩ ∧
    candidate? importingFile ".//A.sol".toList none = some (.ofText "/A.sol".toList) ∧
    candidate? importingFile "./../A.sol".toList none =
      candidate? importingFile "../A.sol".toList none := by
  obtain ⟨hmarked, hsame⟩ := explicit_relative_candidate importingFile none
  obtain ⟨hrelative, -⟩ := hmarked ".\\lib//A.sol".toList "lib//A.sol".toList (by decide)
  obtain ⟨-, habsolute⟩ := hmarked ".//A.sol".toList "/A.sol".toList (by decide)
  refine ⟨?_, ?_, ?_⟩
  · rw [(hrelative (by decide)).1]
    decide
  · exact (habsolute rfl).1
  · exact hsame "../A.sol".toList (by decide) (by decide)

/-- With a slash behind the marker a target leaves the directory of the importing file, and putting
a marker in front of it changes where it leads. -/
theorem marker_slash_leaves_directory :
    Text.forwardSlashes ".//A.sol".toList = '.' :: '/' :: "/A.sol".toList ∧
      candidate? importingFile ".//A.sol".toList none ≠
        some (importingFile.beside ".//A.sol".toList) ∧
      candidate? importingFile "././/A.sol".toList none ≠
        candidate? importingFile ".//A.sol".toList none := by
  decide

end SolidityFlattener
