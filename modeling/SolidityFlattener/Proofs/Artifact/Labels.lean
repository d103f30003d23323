import SolidityFlattener.Proofs.Artifact.FlatText
import SolidityFlattener.Proofs.Path
import SolidityFlattener.Proofs.Source.Scan

/-!
Labels and the lines that they stand in.

A label names its file: joined to the base that it is made relative to, it gives the path back, and
where it is not relative it is the path itself. The line around it starts no import statement, is
not blank, and is a header line only if the label itself holds a mark.
-/

namespace SolidityFlattener

open Source (isHeaderLine startsImport headerMarks)

variable {base : Option Path} {p : Path}

/-- A label is the text of the path that leads to the file, from the base or from anywhere. -/
theorem exists_label_eq (base : Option Path) (p : Path) :
    ∃ q, label base p = q.text ∧
      (q = p ∨ q.anchor = .relative ∧ ∃ b, base = some b ∧ p = ⟨b.anchor, b.parts ++ q.parts⟩) := by
  cases hbelow : base.bind p.relativeTo? with
  | none => exact ⟨p, by simp [label, hbelow], .inl rfl⟩
  | some q =>
      obtain ⟨b, hbase, hq⟩ := Option.bind_eq_some_iff.1 hbelow
      obtain ⟨hrelative, hp⟩ := Path.relativeTo?_eq_some_iff.1 hq
      exact ⟨q, by simp [label, hbelow], .inr ⟨hrelative, b, hbase, hp⟩⟩

/-- A label leads back to its file from the base. Without a base it does so from anywhere. -/
theorem joinText_label (hproper : p.Proper) (habsolute : p.isAbsolute) (b : Path) :
    (base.getD b).joinText (label base p) = p := by
  obtain ⟨q, hlabel, hq⟩ := exists_label_eq base p
  rw [Path.joinText, hlabel]
  rcases hq with rfl | ⟨hrelative, b, rfl, rfl⟩
  · rw [Path.ofText_text hproper, Path.join_of_isAbsolute habsolute]
  · have hproper : q.Proper := fun part hpart => hproper part (List.mem_append_right _ hpart)
    rw [Path.ofText_text hproper]
    simp [Path.join, hrelative]

theorem oneLine_label (h : p.text.OneLine) : (label base p).OneLine := by
  obtain ⟨q, hlabel, hq⟩ := exists_label_eq base p
  rw [hlabel]
  rcases hq with rfl | ⟨-, b, -, rfl⟩
  · exact h
  · exact Path.oneLine_text fun part hpart =>
      Path.oneLine_of_mem_parts h (List.mem_append_right _ hpart)

/-! ### Label lines -/

/-- The brackets around a label keep the marks of header lines from reaching over its ends. -/
theorem isHeaderLine_labelLine (base : Option Path) (p : Path) :
    isHeaderLine (labelLine base p) = isHeaderLine (label base p) := by
  have hmark : ∀ mark ∈ headerMarks,
      mark <:+: labelLine base p ↔ mark <:+: label base p := by
    intro mark hmark
    have hopen : '[' ∉ mark := by revert mark; decide
    have hclose : ']' ∉ mark := by revert mark; decide
    have hfront : ¬mark <:+: "//File: ".toList := by revert mark; decide
    have hne : ¬mark <:+: [] := by revert mark; decide
    have hline : labelLine base p = "//File: ".toList ++ '[' :: (label base p ++ ']' :: []) := rfl
    rw [hline, Text.infix_append_cons_iff hopen, Text.infix_append_cons_iff hclose]
    tauto
  rw [Bool.eq_iff_iff]
  simp only [isHeaderLine, List.any_eq_true, Text.occursIn_iff]
  constructor
  · rintro ⟨mark, hmem, hinfix⟩
    exact ⟨mark, hmem, (hmark mark hmem).1 hinfix⟩
  · rintro ⟨mark, hmem, hinfix⟩
    exact ⟨mark, hmem, (hmark mark hmem).2 hinfix⟩

theorem startsImport_labelLine (base : Option Path) (p : Path) :
    startsImport (labelLine base p) = false := rfl

theorem isBlankLine_labelLine (base : Option Path) (p : Path) :
    Text.isBlankLine (labelLine base p) = false := rfl

theorem oneLine_labelLine (h : (label base p).OneLine) : (labelLine base p).OneLine :=
  Text.oneLine_append.2 ⟨Text.oneLine_append.2 ⟨by decide, h⟩, by decide⟩

end SolidityFlattener
