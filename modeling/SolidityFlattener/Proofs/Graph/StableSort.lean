import Mathlib.Data.List.Nodup
import Mathlib.Data.List.Perm.Basic

/-!
Stable sorting by a numeric key.

A sorted list is determined by what it holds of each key, in order, and a stable sort leaves that
alone. So the members of the least key can be taken off the front of a sorted list as they stand.
-/

namespace SolidityFlattener

variable {α : Type} {key : α → ℕ} {l l₁ l₂ : List α} {a : α} {k : ℕ}

def sortedBy (key : α → ℕ) (l : List α) : List α := l.mergeSort fun a b => key a ≤ key b

theorem sortedBy_perm (key : α → ℕ) (l : List α) : (sortedBy key l).Perm l :=
  List.mergeSort_perm l _

@[simp] theorem mem_sortedBy : a ∈ sortedBy key l ↔ a ∈ l := List.mem_mergeSort

@[simp] theorem sortedBy_nil : sortedBy key [] = [] := List.mergeSort_nil

theorem keyLe_trans (key : α → ℕ) (a b c : α) (hab : decide (key a ≤ key b) = true)
    (hbc : decide (key b ≤ key c) = true) : decide (key a ≤ key c) = true := by
  simp only [decide_eq_true_eq] at *
  omega

theorem keyLe_total (key : α → ℕ) (a b : α) :
    (decide (key a ≤ key b) || decide (key b ≤ key a)) = true := by
  simp only [Bool.or_eq_true, decide_eq_true_eq]
  omega

theorem sortedBy_pairwise (key : α → ℕ) (l : List α) :
    (sortedBy key l).Pairwise fun a b => key a ≤ key b := by
  simpa [sortedBy] using List.pairwise_mergeSort (keyLe_trans key) (keyLe_total key) l

/-- Sorting keeps the members of one key in order. -/
theorem filter_sortedBy (key : α → ℕ) (l : List α) (k : ℕ) :
    (sortedBy key l).filter (fun a => key a = k) = l.filter fun a => key a = k := by
  have hsame : (l.filter fun a => key a = k).Pairwise
      fun a b => decide (key a ≤ key b) = true := by
    refine List.pairwise_of_forall_mem_list ?_
    simp only [List.mem_filter, decide_eq_true_eq]
    rintro a ⟨-, ha⟩ b ⟨-, hb⟩
    omega
  have hsub : (l.filter fun a => key a = k).Sublist (sortedBy key l) :=
    List.sublist_mergeSort (keyLe_trans key) (keyLe_total key) hsame List.filter_sublist
  have hfilter := hsub.filter fun a => decide (key a = k)
  simp only [List.filter_filter, Bool.and_self] at hfilter
  -- sorting adds nothing of a key, so the sublist is all there is
  exact (hfilter.eq_of_length ((sortedBy_perm key l).filter _).length_eq.symm).symm

/-- The head of a sorted list has the least key. -/
theorem filter_eq_nil_of_lt (h : (a :: l).Pairwise fun a b => key a ≤ key b) (hk : k < key a) :
    (a :: l).filter (fun b => key b = k) = [] := by
  rw [List.filter_eq_nil_iff]
  intro b hb
  rcases List.mem_cons.1 hb with rfl | hb
  · simp
    omega
  · have := List.rel_of_pairwise_cons h hb
    simp
    omega

/-- A sorted list is determined by what it holds of each key. -/
theorem eq_of_filter_eq (h₁ : l₁.Pairwise fun a b => key a ≤ key b)
    (h₂ : l₂.Pairwise fun a b => key a ≤ key b)
    (h : ∀ k, l₁.filter (fun a => key a = k) = l₂.filter fun a => key a = k) : l₁ = l₂ := by
  induction l₁ generalizing l₂ with
  | nil =>
      cases l₂ with
      | nil => rfl
      | cons b l₂ => simpa using h (key b)
  | cons a l₁ ih =>
      cases l₂ with
      | nil => simpa using h (key a)
      | cons b l₂ =>
          -- of two different least keys one list would hold members and the other none
          have hkey : key a = key b := by
            rcases Nat.lt_trichotomy (key a) (key b) with hlt | heq | hlt
            · have := h (key a)
              rw [filter_eq_nil_of_lt h₂ hlt] at this
              simp at this
            · exact heq
            · have := h (key b)
              rw [filter_eq_nil_of_lt h₁ hlt] at this
              simp at this
          obtain rfl : a = b := by
            have := h (key a)
            simp only [hkey, decide_true, List.filter_cons_of_pos] at this
            exact (List.cons_eq_cons.1 this).1
          have htail : l₁ = l₂ := by
            refine ih h₁.of_cons h₂.of_cons fun k => ?_
            have := h k
            by_cases hk : key a = k
            · simpa [hk] using this
            · simpa [hk] using this
          rw [htail]

/-- The members of the least key come first, as they stand. -/
theorem sortedBy_eq_append (h : ∀ a ∈ l, k ≤ key a) :
    sortedBy key l =
      l.filter (fun a => key a = k) ++ sortedBy key (l.filter fun a => key a ≠ k) := by
  refine eq_of_filter_eq (sortedBy_pairwise key l) (List.pairwise_append.2 ⟨?_, ?_, ?_⟩) ?_
  · refine List.pairwise_of_forall_mem_list ?_
    simp only [List.mem_filter, decide_eq_true_eq]
    rintro a ⟨-, ha⟩ b ⟨-, hb⟩
    omega
  · exact sortedBy_pairwise key _
  · simp only [List.mem_filter, mem_sortedBy, decide_eq_true_eq]
    rintro a ⟨-, rfl⟩ b ⟨hb, -⟩
    exact h b hb
  · intro j
    rw [filter_sortedBy, List.filter_append, filter_sortedBy, List.filter_filter,
      List.filter_filter]
    by_cases hj : j = k
    · subst hj
      simp
    · have hnone : l.filter (fun a => decide (key a = j) && decide (key a = k)) = [] := by
        rw [List.filter_eq_nil_iff]
        intro a _
        simp
        omega
      rw [hnone, List.nil_append]
      refine List.filter_congr fun a _ => ?_
      by_cases ha : key a = j <;> simp [ha, hj]

theorem map_sortedBy {β : Type} (f : α → β) (key : β → ℕ) (l : List α) :
    (sortedBy (fun a => key (f a)) l).map f = sortedBy key (l.map f) :=
  List.map_mergeSort fun _ _ _ _ => rfl

/-- In a sorted list a smaller key stands before a larger one. -/
theorem idxOf_lt_of_key_lt [DecidableEq α] {b : α} (h : l.Pairwise fun a b => key a ≤ key b)
    (ha : a ∈ l) (hb : b ∈ l) (hk : key a < key b) : l.idxOf a < l.idxOf b := by
  have hia := List.idxOf_lt_length_of_mem ha
  have hib := List.idxOf_lt_length_of_mem hb
  by_contra hle
  rcases Nat.eq_or_lt_of_le (Nat.le_of_not_lt hle) with heq | hlt
  · rw [(List.idxOf_inj hb).1 heq] at hk
    omega
  · have hpair := List.pairwise_iff_getElem.1 h _ _ hib hia hlt
    rw [List.getElem_idxOf, List.getElem_idxOf] at hpair
    omega

end SolidityFlattener
