import SolidityFlattener.Artifact.Bundle
import Mathlib.Data.List.Nodup

/-!
Where the body of each file stands in the flat text.

The text is a head, the other files one after another, and the body of the root. What comes before
a body is known in full, so its offset can be computed, and a file that is listed earlier has its
body end before a later one starts.
-/

namespace SolidityFlattener

variable {newline text : Text} {base : Option Path} {root n a b : Node} {files : List Node}
  {p q : Path}

theorem joinLines_concat (newline : Text) (lines : List Text) (last : Text) :
    joinLines newline (lines ++ [last]) = lines.flatMap (· ++ newline) ++ last := by
  induction lines with
  | nil => simp [joinLines, List.intercalate]
  | cons line lines ih =>
      obtain ⟨next, rest, hrest⟩ := List.exists_cons_of_ne_nil
        (show lines ++ [last] ≠ [] by simp)
      rw [List.cons_append, List.flatMap_cons, List.append_assoc, ← ih, hrest]
      simp [joinLines, List.intercalate]

/-- What comes before the first file. -/
def flatHead (newline : Text) (root : Node) : Text :=
  joinLines newline root.header ++ newline ++ newline

def labelLine (base : Option Path) (p : Path) : Text :=
  "//File: [".toList ++ label base p ++ [']']

/-- What comes right before the body of a file other than the root. -/
def labelText (newline : Text) (base : Option Path) (p : Path) : Text :=
  labelLine base p ++ newline ++ newline

/-- A file other than the root with all that is written for it. -/
def dependencyText (newline : Text) (base : Option Path) (n : Node) : Text :=
  labelText newline base n.path ++ joinLines newline n.body ++ newline ++ newline

theorem flatText_eq (root : Node) (files : List Node) (newline : Text) (base : Option Path) :
    flatText root files newline base =
      flatHead newline root ++
        (files.filter fun n => n.path != root.path).flatMap (dependencyText newline base) ++
        joinLines newline root.body := by
  have hblocks : ∀ n, (dependencyBlocks newline base n).flatMap (· ++ newline) =
      dependencyText newline base n := by
    intro n
    have hlines : dependencyBlocks newline base n =
        [labelLine base n.path, [], joinLines newline n.body, []] := rfl
    simp [hlines, dependencyText, labelText]
  rw [flatText, joinLines_concat, List.flatMap_append, List.flatMap_assoc]
  simp [hblocks, flatHead]

/-- The files whose bodies are written before that of a file. -/
def bodiesBefore (root : Path) (files : List Node) (p : Path) : List Node :=
  (if p = root then files else files.takeWhile fun n => n.path != p).filter fun n =>
    n.path != root

/-- How much is written before the body of a file. -/
def bodyStart (root : Node) (files : List Node) (newline : Text) (base : Option Path) (p : Path) :
    ℕ :=
  (flatHead newline root ++
    (bodiesBefore root.path files p).flatMap (dependencyText newline base) ++
    if p = root.path then [] else labelText newline base p).length

theorem takeWhile_append_dropWhile_of_mem (hn : n ∈ files)
    (hnodup : (files.map Node.path).Nodup) :
    ∃ after, files = (files.takeWhile fun m => m.path != n.path) ++ n :: after := by
  induction files with
  | nil => simp at hn
  | cons m files ih =>
      rw [List.map_cons, List.nodup_cons] at hnodup
      rcases List.mem_cons.1 hn with rfl | hn
      · exact ⟨files, by simp⟩
      · have hne : m.path ≠ n.path := fun heq => hnodup.1 (heq ▸ List.mem_map_of_mem hn)
        obtain ⟨after, hafter⟩ := ih hn hnodup.2
        refine ⟨after, ?_⟩
        rw [List.takeWhile_cons_of_pos (by simpa using hne), List.cons_append, ← hafter]

/-- Of two listed files, all that comes before the earlier one also comes before the later one, and
so does the earlier one itself. -/
theorem takeWhile_of_idxOf_lt (hb : b ∈ files) (hnodup : (files.map Node.path).Nodup)
    (hlt : (files.map Node.path).idxOf b.path < (files.map Node.path).idxOf p) :
    ∃ between, (files.takeWhile fun m => m.path != p) =
      (files.takeWhile fun m => m.path != b.path) ++ b :: between := by
  induction files with
  | nil => simp at hb
  | cons m files ih =>
      rw [List.map_cons, List.nodup_cons] at hnodup
      rw [List.map_cons] at hlt
      have hmp : m.path ≠ p := by
        rintro rfl
        simp at hlt
      rw [List.takeWhile_cons_of_pos (by simpa using hmp)]
      rcases List.mem_cons.1 hb with rfl | hb
      · exact ⟨files.takeWhile fun m => m.path != p, by simp⟩
      · have hmb : m.path ≠ b.path := fun heq => hnodup.1 (heq ▸ List.mem_map_of_mem hb)
        rw [List.idxOf_cons_ne _ hmb, List.idxOf_cons_ne _ hmp] at hlt
        obtain ⟨between, hbetween⟩ := ih hb hnodup.2 (by omega)
        refine ⟨between, ?_⟩
        rw [List.takeWhile_cons_of_pos (by simpa using hmb), List.cons_append, ← hbetween]

theorem exists_filter_eq (hn : n ∈ files) (hnodup : (files.map Node.path).Nodup)
    (hroot : n.path ≠ p) :
    ∃ after, (files.filter fun m => m.path != p) = bodiesBefore p files n.path ++ n :: after := by
  obtain ⟨after, hafter⟩ := takeWhile_append_dropWhile_of_mem hn hnodup
  refine ⟨after.filter fun m => m.path != p, ?_⟩
  rw [bodiesBefore, if_neg hroot]
  conv_lhs => rw [hafter]
  rw [List.filter_append, List.filter_cons_of_pos (by simpa using hroot)]

/-- From where the body of the root starts there is nothing else. -/
theorem drop_bodyStart_root (root : Node) (files : List Node) (newline : Text)
    (base : Option Path) :
    (flatText root files newline base).drop (bodyStart root files newline base root.path) =
      joinLines newline root.body := by
  rw [flatText_eq, bodyStart, if_pos rfl, List.append_nil, bodiesBefore, if_pos rfl,
    List.drop_left]

/-- The body of a listed file stands where it is said to start. -/
theorem body_prefix_drop (hroot : root ∈ files) (hnodup : (files.map Node.path).Nodup)
    (hn : n ∈ files) :
    joinLines newline n.body <+:
      (flatText root files newline base).drop (bodyStart root files newline base n.path) := by
  by_cases hpath : n.path = root.path
  · obtain rfl : n = root := List.inj_on_of_nodup_map hnodup hn hroot hpath
    refine ⟨[], ?_⟩
    rw [List.append_nil, drop_bodyStart_root]
  · obtain ⟨after, hafter⟩ := exists_filter_eq hn hnodup hpath
    rw [flatText_eq, bodyStart, if_neg hpath, hafter, List.flatMap_append, List.flatMap_cons]
    have hsplit : ∀ head front rest last : Text,
        head ++ (front ++ (dependencyText newline base n ++ rest)) ++ last =
          head ++ front ++ labelText newline base n.path ++
            (joinLines newline n.body ++ (newline ++ newline ++ rest ++ last)) := by
      intro head front rest last
      simp [dependencyText]
    rw [hsplit, List.drop_left]
    exact List.prefix_append _ _

/-- The body of a dependency ends before that of a file listed later starts, and before that of the
root. -/
theorem bodyStart_add_le (hnodup : (files.map Node.path).Nodup) (hb : b ∈ files)
    (hroot : b.path ≠ root.path)
    (hbefore : p = root.path ∨
      (files.map Node.path).idxOf b.path < (files.map Node.path).idxOf p) :
    bodyStart root files newline base b.path + (joinLines newline b.body).length ≤
      bodyStart root files newline base p := by
  -- what is written before the later body holds the earlier one
  have hsplit : ∃ between, bodiesBefore root.path files p =
      bodiesBefore root.path files b.path ++ b :: between := by
    by_cases hp : p = root.path
    · rw [bodiesBefore, if_pos hp]
      exact exists_filter_eq hb hnodup hroot
    · obtain ⟨between, hbetween⟩ := takeWhile_of_idxOf_lt hb hnodup (hbefore.resolve_left hp)
      refine ⟨between.filter fun m => m.path != root.path, ?_⟩
      rw [bodiesBefore, bodiesBefore, if_neg hp, if_neg hroot, hbetween, List.filter_append,
        List.filter_cons_of_pos (by simpa using hroot)]
  obtain ⟨between, hbetween⟩ := hsplit
  simp only [bodyStart, hbetween, hroot, if_false, List.flatMap_append, List.flatMap_cons,
    List.length_append, dependencyText]
  omega

end SolidityFlattener
