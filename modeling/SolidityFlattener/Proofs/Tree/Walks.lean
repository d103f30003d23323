import SolidityFlattener.Tree.Walk
import Mathlib

/-!
How far a walk gets.

A walk to a target stands somewhere: it has links left to follow, a location reached and names
ahead. Each name leads from one standing to the next or ends the walk with a fault, so `Reaches`,
"gets there or fails before", is what the steps of a walk have in common, and it composes.
-/

namespace SolidityFlattener.Tree

/-- Where a walk to a target stands. -/
structure Standing where
  links : Nat
  here : Location
  names : List Text

def outcome (t : Tree) (s : Standing) : Except Fault Location :=
  t.walk .target s.links s.here s.names

def Fails (t : Tree) (s : Standing) : Prop := ∃ fault, t.outcome s = .error fault

/-- A walk goes on to another standing, with no more links than before, unless it fails. -/
def Reaches (t : Tree) (a b : Standing) : Prop :=
  t.Fails a ∨ b.links ≤ a.links ∧ t.outcome a = t.outcome b

variable {t : Tree} {a b c : Standing} {links : Nat} {here : Location} {name target : Text}
  {names rest : List Text}

theorem Reaches.refl (t : Tree) (a : Standing) : t.Reaches a a := .inr ⟨Nat.le_refl _, rfl⟩

theorem Reaches.trans (hab : t.Reaches a b) (hbc : t.Reaches b c) : t.Reaches a c := by
  rcases hab with hfail | ⟨hlinks, heq⟩
  · exact .inl hfail
  · rcases hbc with ⟨fault, hfault⟩ | ⟨hlinks', heq'⟩
    · exact .inl ⟨fault, heq.trans hfault⟩
    · exact .inr ⟨Nat.le_trans hlinks' hlinks, heq.trans heq'⟩

theorem Reaches.fails (hab : t.Reaches a b) (hb : t.Fails b) : t.Fails a := by
  rcases hab with hfail | ⟨-, heq⟩
  · exact hfail
  · obtain ⟨fault, hfault⟩ := hb
    exact ⟨fault, heq.trans hfault⟩

/-- A walk that ends somewhere ends there from every standing it reaches. -/
theorem Reaches.outcome_eq_ok (hab : t.Reaches a b) {place : Location}
    (h : t.outcome a = .ok place) : t.outcome b = .ok place := by
  rcases hab with ⟨fault, hfault⟩ | ⟨-, heq⟩
  · rw [hfault] at h
    cases h
  · rw [← heq, h]

/-! ### The steps -/

/-- Whether a name can be one of an entry, which an empty one, `.` and `..` cannot. -/
def IsEntryName (name : Text) : Prop := Path.isComponent name ∧ name ≠ ['.', '.']

theorem IsEntryName.not_blank (h : IsEntryName name) : ¬(name = [] ∨ name = ['.']) := by
  have := h.1
  simp_all [Path.isComponent]

theorem outcome_cons (t : Tree) (links : Nat) (here : Location) (name : Text)
    (rest : List Text) :
    t.outcome ⟨links, here, name :: rest⟩ =
      if !t.isDirectoryAt here then .error .notDirectory
      else if name = [] ∨ name = ['.'] then t.outcome ⟨links, here, rest⟩
      else if name = ['.', '.'] then t.outcome ⟨links, here.dropLast, rest⟩
      else if nameLimit < Text.utf8Size name then .error .nameTooLong
      else match t.lookup (here ++ [name]) with
        | none => if rest.isEmpty then .ok (here ++ [name]) else .error .missing
        | some (.link target) =>
          match links with
          | 0 => .error .tooManyLinks
          | left + 1 => t.outcome ⟨left, targetOrigin target here, targetNames target ++ rest⟩
        | some _ => t.outcome ⟨links, here ++ [name], rest⟩ := by
  simp only [outcome]
  rw [walk]
  cases t.lookup (here ++ [name]) with
  | none => simp
  | some entry =>
      cases entry with
      | file content => simp
      | directory => simp
      | link target => cases links <;> simp

theorem reaches_of_not_component (links : Nat) (here : Location) (rest : List Text)
    (hname : ¬Path.isComponent name) :
    t.Reaches ⟨links, here, name :: rest⟩ ⟨links, here, rest⟩ := by
  have hblank : name = [] ∨ name = ['.'] := by
    by_contra h
    simp_all [Path.isComponent]
  by_cases hdir : t.isDirectoryAt here
  · exact .inr ⟨Nat.le_refl _, by simp [outcome_cons, hdir, hblank]⟩
  · exact .inl ⟨.notDirectory, by simp [outcome_cons, hdir]⟩

theorem reaches_parent :
    t.Reaches ⟨links, here, ['.', '.'] :: rest⟩ ⟨links, here.dropLast, rest⟩ := by
  by_cases hdir : t.isDirectoryAt here
  · exact .inr ⟨Nat.le_refl _, by simp [outcome_cons, hdir]⟩
  · exact .inl ⟨.notDirectory, by simp [outcome_cons, hdir]⟩

theorem reaches_below {entry : Entry} (links : Nat) (rest : List Text) (hname : IsEntryName name)
    (hentry : t.lookup (here ++ [name]) = some entry) (hlink : ∀ target, entry ≠ .link target) :
    t.Reaches ⟨links, here, name :: rest⟩ ⟨links, here ++ [name], rest⟩ := by
  by_cases hdir : t.isDirectoryAt here
  · by_cases hlong : nameLimit < Text.utf8Size name
    · exact .inl ⟨.nameTooLong, by
        simp [outcome_cons, hdir, hname.not_blank, hname.2, hlong]⟩
    · refine .inr ⟨Nat.le_refl _, ?_⟩
      rw [outcome_cons, hentry]
      cases entry with
      | link target => exact absurd rfl (hlink target)
      | file content => simp [hdir, hname.not_blank, hname.2, hlong]
      | directory => simp [hdir, hname.not_blank, hname.2, hlong]
  · exact .inl ⟨.notDirectory, by simp [outcome_cons, hdir]⟩

/-- No link can be followed where none is left. -/
theorem fails_of_no_links (rest : List Text) (hname : IsEntryName name)
    (hentry : t.lookup (here ++ [name]) = some (.link target)) :
    t.Fails ⟨0, here, name :: rest⟩ := by
  by_cases hdir : t.isDirectoryAt here
  · by_cases hlong : nameLimit < Text.utf8Size name
    · exact ⟨.nameTooLong, by simp [outcome_cons, hdir, hname.not_blank, hname.2, hlong]⟩
    · exact ⟨.tooManyLinks, by
        simp [outcome_cons, hdir, hname.not_blank, hname.2, hlong, hentry]⟩
  · exact ⟨.notDirectory, by simp [outcome_cons, hdir]⟩

/-- A link takes one of the links left. -/
theorem reaches_target (links : Nat) (rest : List Text) (hname : IsEntryName name)
    (hentry : t.lookup (here ++ [name]) = some (.link target)) :
    t.Reaches ⟨links, here, name :: rest⟩
      ⟨links - 1, targetOrigin target here, targetNames target ++ rest⟩ := by
  cases links with
  | zero => exact .inl (fails_of_no_links rest hname hentry)
  | succ left =>
      by_cases hdir : t.isDirectoryAt here
      · by_cases hlong : nameLimit < Text.utf8Size name
        · exact .inl ⟨.nameTooLong, by
            simp [outcome_cons, hdir, hname.not_blank, hname.2, hlong]⟩
        · refine .inr ⟨by simp, ?_⟩
          simp [outcome_cons, hdir, hname.not_blank, hname.2, hlong, hentry]
      · exact .inl ⟨.notDirectory, by simp [outcome_cons, hdir]⟩

/-- Names that lead nowhere are passed over. -/
theorem reaches_skip {blanks : List Text} (hblanks : ∀ name ∈ blanks, ¬Path.isComponent name) :
    t.Reaches ⟨links, here, blanks ++ rest⟩ ⟨links, here, rest⟩ := by
  induction blanks with
  | nil => exact .refl t _
  | cons name blanks ih =>
      have hfirst := reaches_of_not_component (t := t) links here (blanks ++ rest)
        (hblanks name List.mem_cons_self)
      exact hfirst.trans (ih fun other hother => hblanks other (List.mem_cons_of_mem _ hother))

/-- A walk along written names comes to the first of them that is a component. -/
theorem exists_reaches_first {written : List Text}
    (hwritten : written.filter Path.isComponent = name :: names) :
    ∃ after : List Text, after.filter Path.isComponent = names ∧
      ∀ (links : Nat) (here : Location) (rest : List Text),
        t.Reaches ⟨links, here, written ++ rest⟩ ⟨links, here, name :: (after ++ rest)⟩ := by
  obtain ⟨blanks, after, rfl, hblanks, -, hafter⟩ := List.filter_eq_cons_iff.1 hwritten
  refine ⟨after, hafter, fun links here rest => ?_⟩
  rw [List.append_assoc]
  exact reaches_skip hblanks

end SolidityFlattener.Tree
