import SolidityFlattener.Proofs.Tree.Additions

/-!
How many names can be walked.

A walk stands in directories, all of them directories in the tree, so it cannot go down further than
there are entries unless it follows a link. A link may lead up, and even to a directory that the
walk came through, but only so many are followed. So the names that a walk takes after the first
ones are bounded by the links that it has left and the entries of the tree, also where a directory
is found inside itself.
-/

namespace SolidityFlattener.Tree

variable {t : Tree} {cwd here place : Location} {front back : List Text} {s next : Standing}
  {anchor : Anchor}

/-! ### Where a walk stands -/

theorem enterable_nil (t : Tree) : t.Enterable [] := by
  intro above habove
  rw [List.prefix_nil.1 habove]
  exact isDirectoryAt_iff.2 rfl

theorem Enterable.of_prefix (h : t.Enterable place) (hhere : here <+: place) : t.Enterable here :=
  fun above habove => h above (habove.trans hhere)

/-- A directory in one that can be entered can be entered. -/
theorem Enterable.of_dropLast (h : t.Enterable here.dropLast) (hdir : t.isDirectoryAt here) :
    t.Enterable here := by
  obtain rfl | ⟨parent, last, rfl⟩ := here.eq_nil_or_concat
  · exact enterable_nil t
  · rw [List.concat_eq_append, List.dropLast_concat] at h
    intro above habove
    rcases List.prefix_concat_iff.1 (List.concat_eq_append ▸ habove) with rfl | habove
    · rwa [List.concat_eq_append] at hdir
    · exact h above habove

/-- A walk keeps to what is in directories that can be entered. -/
theorem Goes.enterable (h : t.Goes .target s next) (hs : t.Enterable s.here.dropLast) :
    t.Enterable next.here.dropLast := by
  cases h with
  | skip => exact hs
  | parent => exact hs.of_prefix (List.dropLast_prefix _)
  | child hdir =>
      rw [List.dropLast_concat]
      exact hs.of_dropLast hdir
  | @follow _ _ _ _ target =>
      unfold targetOrigin
      split
      · exact enterable_nil t
      · exact hs

/-! ### What a walk takes -/

/-- How many names a walk with some links left can take at most. -/
def wayLimit (t : Tree) (links : ℕ) : ℕ := (links + 1) * (t.entries.length + 1)

theorem wayLimit_succ (t : Tree) (links : ℕ) :
    t.wayLimit (links + 1) = t.wayLimit links + (t.entries.length + 1) := Nat.succ_mul _ _

theorem length_lt_wayLimit (t : Tree) (links : ℕ) : t.entries.length < t.wayLimit links :=
  Nat.le_mul_of_pos_left _ links.succ_pos

/-- The names at the end of a walk are no more than its links and the entries allow. Where no others
stand before them, what led to the directory reached counts with them, as no link lies between. -/
theorem Leads.length_le (h : t.Leads .target s place) (hs : t.Enterable s.here.dropLast)
    (hnames : s.names = front ++ back) (hback : ∀ name ∈ back, IsEntryName name) :
    back.length ≤ t.wayLimit s.links ∧
      (front = [] → s.here.length + back.length ≤ t.wayLimit s.links) := by
  induction h generalizing front back with
  | @ends s place hends =>
      have hlong := hs.length_le
      have hlimit := t.length_lt_wayLimit s.links
      rw [List.length_dropLast] at hlong
      cases hends with
      | here =>
          obtain ⟨rfl, rfl⟩ := List.append_eq_nil_iff.1 hnames.symm
          simp only [List.length_nil] at *
          omega
      | @missing links here name hdir =>
          have hdeep := (hs.of_dropLast hdir).length_le
          have hlength := congrArg List.length hnames
          simp only [List.length_append, List.length_singleton] at *
          omega
      | link _ _ _ haim => cases haim
  | @goes s next place hgoes hleads ih =>
      have hnext := hgoes.enterable hs
      cases hgoes with
      | skip hdir hblank =>
          rcases List.cons_eq_append_iff.1 hnames with ⟨rfl, rfl⟩ | ⟨front, rfl, rfl⟩
          · exact absurd hblank (hback _ List.mem_cons_self).not_blank
          · exact ⟨(ih hnext rfl hback).1, by simp⟩
      | parent hdir =>
          rcases List.cons_eq_append_iff.1 hnames with ⟨rfl, rfl⟩ | ⟨front, rfl, rfl⟩
          · exact absurd rfl (hback _ List.mem_cons_self).2
          · exact ⟨(ih hnext rfl hback).1, by simp⟩
      | child hdir =>
          rcases List.cons_eq_append_iff.1 hnames with ⟨rfl, rfl⟩ | ⟨front, rfl, rfl⟩
          · obtain ⟨-, hrest⟩ := List.forall_mem_cons.1 hback
            have hbelow := (ih hnext (List.nil_append _).symm hrest).2 rfl
            simp only [List.length_append, List.length_cons, List.length_nil] at *
            omega
          · exact ⟨(ih hnext rfl hback).1, by simp⟩
      | @follow left here name rest target hdir =>
          -- the target's names come before those left, for which one link less is there
          have hdeep := (hs.of_dropLast hdir).length_le
          have hlimit := t.wayLimit_succ left
          rcases List.cons_eq_append_iff.1 hnames with ⟨rfl, rfl⟩ | ⟨front, rfl, rfl⟩
          · obtain ⟨-, hrest⟩ := List.forall_mem_cons.1 hback
            have hbelow := (ih hnext rfl hrest).1
            simp only [List.length_cons] at *
            omega
          · have hbelow := (ih hnext (List.append_assoc _ _ _).symm hback).1
            simp only at *
            exact ⟨by omega, by simp⟩

/-- A path leads somewhere only if the names at its end are not too many. -/
theorem length_le_of_locate (h : t.locate .target cwd ⟨anchor, front ++ back⟩ = .ok place)
    (hanchor : anchor ≠ .relative) (hback : ∀ name ∈ back, IsEntryName name) :
    back.length ≤ t.wayLimit linkLimit := by
  obtain ⟨-, hleads⟩ := locate_eq_ok_iff.1 h
  have hstart : (startOf cwd ⟨anchor, front ++ back⟩).here = [] := by
    cases anchor with
    | relative => exact absurd rfl hanchor
    | root => rfl
    | doubled => rfl
  refine (hleads.length_le ?_ rfl hback).1
  rw [hstart]
  exact enterable_nil t

end SolidityFlattener.Tree
