import SolidityFlattener.Proofs.Source.BaseList

/-!
What can be put into a list of base types without a change of its names.

A group in parentheses can stand anywhere, since the walk along the list is behind it where it was
before, whatever is open there or has been closed too often. Blanks can stand anywhere as well: they
are in the pieces at most, and not in the names. A list that has neither is cut at its commas.
-/

namespace SolidityFlattener.Source

variable {t u v w s : Text}

/-- A group in parentheses is not seen, wherever it stands. -/
theorem baseNames_group (hw : Balanced w) (u v : Text) :
    baseNames (u ++ '(' :: (w ++ ')' :: v)) = baseNames (u ++ v) := by
  have hgroup : u ++ '(' :: (w ++ ')' :: v) = u ++ ('(' :: (w ++ [')'])) ++ v := by simp
  rw [baseNames, baseNames, hgroup, List.foldl_append, List.foldl_append,
    ListCursor.foldl_step_group hw, ← List.foldl_append]

/-- Blanks are not seen, wherever they stand. -/
theorem baseNames_blanks (hs : ∀ c ∈ s, Text.isBlank c) (u v : Text) :
    baseNames (u ++ s ++ v) = baseNames (u ++ v) := by
  simp only [baseNames_eq, squeeze_append, squeeze_of_blank hs, List.append_nil]

/-- Without parentheses a walk cuts at the commas and nowhere else. The piece under way is what the
first one goes on with. -/
theorem pieces_foldl_step (h : ∀ c ∈ t, c ≠ '(' ∧ c ≠ ')') (current : Text) (done : List Text) :
    (t.foldl ListCursor.step ⟨0, current, done⟩).pieces =
      done ++ (t.splitOn ',').modifyHead (current ++ ·) := by
  induction t generalizing current done with
  | nil => simp [ListCursor.pieces]
  | cons c t ih =>
      obtain ⟨⟨hopen, hclose⟩, hrest⟩ := List.forall_mem_cons.1 h
      rw [List.foldl_cons, List.splitOn_cons_eq_if_modifyHead]
      by_cases hcomma : c = ','
      · subst hcomma
        have hid : (([] : Text) ++ ·) = id := rfl
        rw [ListCursor.step_comma, ih hrest, hid, List.modifyHead_id]
        simp
      · have hstep : ListCursor.step ⟨0, current, done⟩ c = ⟨0, current ++ [c], done⟩ := by
          simp [ListCursor.step, hopen, hclose, hcomma]
        rw [hstep, ih hrest]
        simp [hcomma, Function.comp_def]

/-- A list without parentheses and blanks has its pieces for names, but for the empty ones. -/
theorem baseNames_of_plain (h : ∀ c ∈ t, c ≠ '(' ∧ c ≠ ')' ∧ Text.isBlank c = false) :
    baseNames t = (t.splitOn ',').filter (· != []) := by
  have hsqueeze : squeeze t = t := squeeze_of_not_blank fun c hc => (h c hc).2.2
  have hid : (([] : Text) ++ ·) = id := rfl
  rw [baseNames_eq, hsqueeze, ListCursor.start,
    pieces_foldl_step (fun c hc => ⟨(h c hc).1, (h c hc).2.1⟩) [] [], hid, List.modifyHead_id, id,
    List.nil_append]

/-- Wherever a list is parted, a group in parentheses that are balanced can be put there without a
change of the names, and so can blanks. A list that has neither parentheses nor blanks has for names
what stands between its commas, in order, unless that is empty. -/
theorem baseNames_of_insertion (u v : Text) :
    (∀ w, Balanced w → baseNames (u ++ '(' :: (w ++ ')' :: v)) = baseNames (u ++ v)) ∧
    (∀ s, (∀ c ∈ s, Text.isBlank c) → baseNames (u ++ s ++ v) = baseNames (u ++ v)) ∧
    ∀ t, (∀ c ∈ t, c ≠ '(' ∧ c ≠ ')' ∧ Text.isBlank c = false) →
      baseNames t = (t.splitOn ',').filter (· != []) :=
  ⟨fun _ hw => baseNames_group hw u v, fun _ hs => baseNames_blanks hs u v,
    fun _ => baseNames_of_plain⟩

/-- A group and a tab behind a closing parenthesis too many, inside the arguments of a base. -/
theorem baseNames_of_insertion_in_arguments :
    let u := "A),B(p".toList
    let v := ",q),C".toList
    baseNames (u ++ "(x,(y))".toList ++ v) = ["A".toList, "B".toList, "C".toList] ∧
      baseNames (u ++ "\t".toList ++ v) = ["A".toList, "B".toList, "C".toList] ∧
      baseNames ",A,,B".toList = ["A".toList, "B".toList] := by
  intro u v
  have hinner : Balanced ['y'] := .cons (by decide) (by decide) .nil
  have hbalanced : Balanced "x,(y)".toList :=
    .cons (by decide) (by decide) (.cons (by decide) (by decide) (.group hinner .nil))
  obtain ⟨hgroup, hblanks, hplain⟩ := baseNames_of_insertion u v
  have hnames : baseNames (u ++ v) = ["A".toList, "B".toList, "C".toList] := by decide
  refine ⟨?_, ?_, (hplain _ (by simp [Text.isBlank])).trans (by decide)⟩
  · rw [List.append_assoc]
    exact (hgroup _ hbalanced).trans hnames
  · exact (hblanks _ (List.all_eq_true.1 (by decide))).trans hnames

end SolidityFlattener.Source
