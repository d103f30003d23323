import SolidityFlattener.Source.BaseList
import SolidityFlattener.Text.Blank
import Mathlib.Data.List.Basic

/-!
What the pieces of a list do to the walk along it.

A text with balanced parentheses leaves the walk as it is wherever a parenthesis is open, so a group
in parentheses does so everywhere. Outside parentheses a comma ends the piece under way, and all
other characters go on with it. Blanks do so as well, but they are not seen in the names: these are
the names in the list without its blanks.
-/

namespace SolidityFlattener.Source

/-- A text whose parentheses are balanced. -/
inductive Balanced : Text → Prop
  | nil : Balanced []
  | cons {c : Char} {v : Text} : c ≠ '(' → c ≠ ')' → Balanced v → Balanced (c :: v)
  | group {u v : Text} : Balanced u → Balanced v → Balanced ('(' :: (u ++ ')' :: v))

variable {t u v w current : Text} {c : Char} {s : ListCursor} {done : List Text}

namespace ListCursor

theorem step_open (s : ListCursor) : s.step '(' = { s with depth := s.depth + 1 } := rfl

theorem step_close (s : ListCursor) : s.step ')' = { s with depth := s.depth - 1 } := rfl

theorem step_comma : step ⟨0, current, done⟩ ',' = ⟨0, [], done ++ [current]⟩ := rfl

theorem step_of_depth_pos (hopen : c ≠ '(') (hclose : c ≠ ')') (hs : 0 < s.depth) :
    s.step c = s := by
  simp [step, hopen, hclose, Nat.ne_of_gt hs]

theorem foldl_step_of_balanced (h : Balanced w) (hs : 0 < s.depth) : w.foldl step s = s := by
  induction h generalizing s with
  | nil => rfl
  | cons hopen hclose _ ih => rw [List.foldl_cons, step_of_depth_pos hopen hclose hs, ih hs]
  | group _ _ ihu ihv =>
      rw [List.foldl_cons, step_open, List.foldl_append, ihu (Nat.succ_pos _), List.foldl_cons,
        step_close]
      exact ihv hs

/-- A group in parentheses leaves the walk as it is, at any depth. -/
theorem foldl_step_group (h : Balanced w) (s : ListCursor) :
    ('(' :: (w ++ [')'])).foldl step s = s := by
  rw [List.foldl_cons, step_open, List.foldl_append, foldl_step_of_balanced h (Nat.succ_pos _)]
  rfl

/-- Outside parentheses, what is no mark of a list goes on with the piece under way. -/
theorem foldl_step_of_plain (h : ∀ c ∈ t, c ≠ '(' ∧ c ≠ ')' ∧ c ≠ ',') :
    t.foldl step ⟨0, current, done⟩ = ⟨0, current ++ t, done⟩ := by
  induction t generalizing current with
  | nil => simp
  | cons c t ih =>
      obtain ⟨hopen, hclose, hcomma⟩ := h c List.mem_cons_self
      have hstep : step ⟨0, current, done⟩ c = ⟨0, current ++ [c], done⟩ := by
        simp [step, hopen, hclose, hcomma]
      rw [List.foldl_cons, hstep, ih fun d hd => h d (List.mem_cons_of_mem _ hd)]
      simp

end ListCursor

/-! ### Blanks -/

@[simp] theorem squeeze_nil : squeeze [] = [] := rfl

@[simp] theorem squeeze_append (u v : Text) : squeeze (u ++ v) = squeeze u ++ squeeze v :=
  List.filter_append u v

theorem squeeze_cons_of_blank (hc : Text.isBlank c) : squeeze (c :: t) = squeeze t :=
  List.filter_cons_of_neg (by simp [hc])

theorem squeeze_cons_of_not_blank (hc : Text.isBlank c = false) :
    squeeze (c :: t) = c :: squeeze t :=
  List.filter_cons_of_pos (by simp [hc])

theorem squeeze_of_blank (h : ∀ c ∈ t, Text.isBlank c) : squeeze t = [] := by
  rw [squeeze, List.filter_eq_nil_iff]
  intro c hc
  simp [h c hc]

theorem squeeze_of_not_blank (h : ∀ c ∈ t, Text.isBlank c = false) : squeeze t = t := by
  rw [squeeze, List.filter_eq_self]
  intro c hc
  simp [h c hc]

theorem Balanced.squeeze (h : Balanced w) : Balanced (squeeze w) := by
  induction h with
  | nil => exact .nil
  | @cons c v hopen hclose _ ih =>
      by_cases hc : Text.isBlank c
      · rwa [squeeze_cons_of_blank hc]
      · rw [squeeze_cons_of_not_blank (by simpa using hc)]
        exact .cons hopen hclose ih
  | group _ _ ihu ihv =>
      rw [squeeze_cons_of_not_blank (by decide), squeeze_append,
        squeeze_cons_of_not_blank (by decide)]
      exact .group ihu ihv

namespace ListCursor

/-- A cursor with all its pieces squeezed. -/
def squeezed (s : ListCursor) : ListCursor := ⟨s.depth, squeeze s.current, s.done.map squeeze⟩

theorem squeezed_step_of_blank (hc : Text.isBlank c) (s : ListCursor) :
    (s.step c).squeezed = s.squeezed := by
  have hopen : c ≠ '(' := by rintro rfl; exact absurd hc (by decide)
  have hclose : c ≠ ')' := by rintro rfl; exact absurd hc (by decide)
  have hcomma : c ≠ ',' := by rintro rfl; exact absurd hc (by decide)
  by_cases hdepth : s.depth = 0
  · simp [step, squeezed, hopen, hclose, hcomma, hdepth, squeeze_cons_of_blank hc]
  · simp [step, hopen, hclose, hdepth]

theorem squeezed_step_of_not_blank (hc : Text.isBlank c = false) (s : ListCursor) :
    (s.step c).squeezed = s.squeezed.step c := by
  have hsingle : squeeze [c] = [c] := squeeze_cons_of_not_blank hc
  have hdepth : s.squeezed.depth = s.depth := rfl
  rw [step, step, hdepth]
  split_ifs <;> simp [squeezed, hsingle]

/-- A walk sees nothing of the blanks but in the pieces. -/
theorem squeezed_foldl_step (t : Text) (s : ListCursor) :
    (t.foldl step s).squeezed = (squeeze t).foldl step s.squeezed := by
  induction t generalizing s with
  | nil => rfl
  | cons c t ih =>
      rw [List.foldl_cons, ih]
      by_cases hc : Text.isBlank c
      · rw [squeeze_cons_of_blank hc, squeezed_step_of_blank hc]
      · have hc : Text.isBlank c = false := by simpa using hc
        rw [squeeze_cons_of_not_blank hc, squeezed_step_of_not_blank hc, List.foldl_cons]

end ListCursor

/-- The names in a list are those in the list without its blanks. -/
theorem baseNames_eq (t : Text) :
    baseNames t = ((squeeze t).foldl ListCursor.step .start).pieces.filter (· != []) := by
  have hsqueezed := ListCursor.squeezed_foldl_step t .start
  have hpieces : ∀ s : ListCursor, s.pieces.map squeeze = s.squeezed.pieces := by
    intro s
    simp [ListCursor.pieces, ListCursor.squeezed]
  rw [baseNames, hpieces, hsqueezed]
  rfl

end SolidityFlattener.Source
