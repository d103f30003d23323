import SolidityFlattener.Proofs.Outcomes
import SolidityFlattener.Proofs.Tree.Growth

/-!
What making directories and writing files does to a tree.

Each of these changes a tree at most where one path leads, to a directory or to a file. A `Frame`
says so for several of them in a row: the tree that results extends the one before, and wherever it
differs one of the paths leads to the difference.
-/

namespace SolidityFlattener.Tree

variable {t t' t'' : Tree} {cwd place : Location} {p : Path} {text : Text} {anchor : Anchor}
  {names : List Text} {directories files directories' files' : Path → Prop}

/-! ### Frames -/

/-- All that has changed from one tree to another is directories and files that some paths lead
to. -/
structure Frame (cwd : Location) (directories files : Path → Prop) (t t' : Tree) : Prop where
  extension : t.Extends t'
  changed : ∀ place, t'.lookup place ≠ t.lookup place →
    (t'.lookup place = some .directory ∧
      ∃ p, directories p ∧ t'.locate .target cwd p = .ok place) ∨
    ((∃ content, t'.lookup place = some (.file content)) ∧
      ∃ p, files p ∧ t'.locate .target cwd p = .ok place)

namespace Frame

theorem refl (t : Tree) : Frame cwd directories files t t :=
  ⟨.refl t, fun _ h => absurd rfl h⟩

theorem trans (h : Frame cwd directories files t t') (h' : Frame cwd directories files t' t'') :
    Frame cwd directories files t t'' where
  extension := h.extension.trans h'.extension
  changed := by
    intro place hplace
    by_cases hlast : t''.lookup place = t'.lookup place
    · -- what was changed before is still where its path leads
      rw [hlast] at hplace ⊢
      rcases h.changed place hplace with ⟨hdir, p, hp, hlocate⟩ | ⟨hfile, p, hp, hlocate⟩
      · exact .inl ⟨hdir, p, hp, h'.extension.locate hlocate⟩
      · exact .inr ⟨hfile, p, hp, h'.extension.locate hlocate⟩
    · exact h'.changed place hlast

theorem mono (h : Frame cwd directories files t t') (hdirs : ∀ p, directories p → directories' p)
    (hfiles : ∀ p, files p → files' p) : Frame cwd directories' files' t t' where
  extension := h.extension
  changed := by
    intro place hplace
    rcases h.changed place hplace with ⟨hdir, p, hp, hlocate⟩ | ⟨hfile, p, hp, hlocate⟩
    · exact .inl ⟨hdir, p, hdirs p hp, hlocate⟩
    · exact .inr ⟨hfile, p, hfiles p hp, hlocate⟩

/-- A directory or a file is put where a path leads, over nothing or over its like. -/
theorem insert {entry : Entry} (hne : place ≠ []) (hplace : ∀ name ∈ place, IsEntryName name)
    (hold : ∀ old, t.lookup place = some old → old.shape = entry.shape)
    (hentry : entry = .directory ∧ directories p ∨ (∃ content, entry = .file content) ∧ files p)
    (hlocate : t.locate .target cwd p = .ok place) :
    Frame cwd directories files t (t.insert place entry) := by
  have hlink : ∀ target, entry ≠ .link target := by
    rcases hentry with ⟨rfl, -⟩ | ⟨⟨content, rfl⟩, -⟩ <;> simp
  have hextends : t.Extends (t.insert place entry) := .insert hne hlink hold hplace
  refine ⟨hextends, fun other hother => ?_⟩
  obtain rfl : other = place := by
    by_contra hdiffers
    exact hother (lookup_insert_of_ne hne hdiffers)
  rw [lookup_insert_self hne]
  rcases hentry with ⟨rfl, hp⟩ | ⟨⟨content, rfl⟩, hp⟩
  · exact .inl ⟨rfl, p, hp, hextends.locate hlocate⟩
  · exact .inr ⟨⟨content, rfl⟩, p, hp, hextends.locate hlocate⟩

end Frame

/-! ### One access -/

theorem Linkless.origin (hcwd : t.Linkless cwd) (p : Path) : t.Linkless (p.origin cwd) := by
  unfold Path.origin
  split
  · exact .root
  · exact hcwd

theorem linkless_of_locate {aim : Aim} (hcwd : t.Linkless cwd)
    (h : t.locate aim cwd p = .ok place) (hlink : ∀ target, t.lookup place ≠ some (.link target)) :
    t.Linkless place := by
  rcases (locate_eq_ok_iff.1 h).2.linkless (hcwd.origin p) with hlinkless | ⟨-, target, htarget⟩
  · exact hlinkless
  · exact absurd htarget (hlink target)

theorem locate_target {aim : Aim} (h : t.locate aim cwd p = .ok place)
    (hlink : ∀ target, t.lookup place ≠ some (.link target)) :
    t.locate .target cwd p = .ok place :=
  have hleads := locate_eq_ok_iff.1 h
  locate_eq_ok_iff.2 ⟨hleads.1, hleads.2.target hlink⟩

theorem makeDirectory_eq_ok_iff :
    t.makeDirectory cwd p = .ok t' ↔
      ∃ place, t.locate .entry cwd p = .ok place ∧ t.lookup place = none ∧
        t' = t.insert place .directory := by
  unfold makeDirectory
  rw [bind_eq_ok_iff]
  refine exists_congr fun place => and_congr_right fun _ => ?_
  cases t.lookup place <;> simp [eq_comm]

theorem write_eq_ok_iff :
    t.write cwd p text = .ok t' ↔
      ∃ place, t.locate .newFile cwd p = .ok place ∧ ¬t.isDirectoryAt place ∧
        t' = t.insert place (.file text.toUtf8) := by
  unfold write
  rw [bind_eq_ok_iff]
  refine exists_congr fun place => and_congr_right fun _ => ?_
  cases t.isDirectoryAt place <;> simp [eq_comm]

theorem makeOne_cases (h : t.makeOne cwd p = .ok t') : t.makeDirectory cwd p = .ok t' ∨ t' = t := by
  unfold makeOne at h
  split at h
  · next made hmade => exact .inl (hmade.trans h)
  · cases h
  · split_ifs at h
    split at h
    · exact .inr (Except.ok.inj h).symm
    · cases h
    · cases h

theorem frame_makeOne (hcwd : t.Linkless cwd) (hp : directories p)
    (h : t.makeOne cwd p = .ok t') : Frame cwd directories files t t' := by
  rcases makeOne_cases h with hmade | rfl
  · obtain ⟨place, hlocate, hnone, rfl⟩ := makeDirectory_eq_ok_iff.1 hmade
    have hlink : ∀ target, t.lookup place ≠ some (.link target) := by simp [hnone]
    exact .insert (ne_nil_of_lookup_ne t (by simp [hnone])) (linkless_of_locate hcwd hlocate hlink).names
      (by simp [hnone]) (.inl ⟨rfl, hp⟩) (locate_target hlocate hlink)
  · exact .refl t'

theorem extends_makeOne (hcwd : t.Linkless cwd) (h : t.makeOne cwd p = .ok t') : t.Extends t' :=
  have hframe : Frame cwd (· = p) (fun _ => False) t t' := frame_makeOne hcwd rfl h
  hframe.extension

/-- A file is written over nothing or over a file. -/
theorem frame_write (hcwd : t.Linkless cwd) (hp : files p) (h : t.write cwd p text = .ok t') :
    Frame cwd directories files t t' := by
  obtain ⟨place, hlocate, hdir, rfl⟩ := write_eq_ok_iff.1 h
  have hlinkless : t.Linkless place :=
    ((locate_eq_ok_iff.1 hlocate).2.linkless (hcwd.origin p)).resolve_right (by simp)
  have hlink := hlinkless.above place (List.prefix_refl place)
  have hne : place ≠ [] :=
    ne_nil_of_lookup_ne t fun hfound => hdir (by simp [isDirectoryAt, hfound])
  refine .insert hne hlinkless.names ?_ (.inr ⟨⟨_, rfl⟩, hp⟩) (locate_target hlocate hlink)
  intro old hold
  cases old with
  | file content => rfl
  | directory => simp [isDirectoryAt, hold] at hdir
  | link target => exact absurd hold (hlink target)

theorem extends_write (hcwd : t.Linkless cwd) (h : t.write cwd p text = .ok t') : t.Extends t' :=
  have hframe : Frame cwd (fun _ => False) (· = p) t t' := frame_write hcwd rfl h
  hframe.extension

/-! ### Directories on the way -/

/-- The directories that a directory lies in, and itself. -/
def OnTheWay (directory p : Path) : Prop :=
  p.anchor = directory.anchor ∧ p.parts <+: directory.parts

theorem OnTheWay.refl (directory : Path) : OnTheWay directory directory :=
  ⟨rfl, List.prefix_refl _⟩

theorem OnTheWay.above {above : List Text} {name : Text}
    (h : OnTheWay ⟨anchor, above.reverse⟩ p) : OnTheWay ⟨anchor, (name :: above).reverse⟩ p := by
  refine ⟨h.1, h.2.trans ?_⟩
  rw [List.reverse_cons]
  exact List.prefix_append _ _

theorem makeAll_nil_eq_ok_iff :
    t.makeAll cwd anchor [] = (t', .ok ()) ↔ t.makeOne cwd ⟨anchor, []⟩ = .ok t' := by
  rw [makeAll]
  cases t.makeOne cwd ⟨anchor, []⟩ <;> simp

theorem makeAll_cons_eq_ok_iff {name : Text} {above : List Text} :
    t.makeAll cwd anchor (name :: above) = (t', .ok ()) ↔
      t.makeOne cwd ⟨anchor, (name :: above).reverse⟩ = .ok t' ∨
        t.makeOne cwd ⟨anchor, (name :: above).reverse⟩ = .error .missing ∧
          ∃ made, t.makeAll cwd anchor above = (made, .ok ()) ∧
            made.makeOne cwd ⟨anchor, (name :: above).reverse⟩ = .ok t' := by
  rw [makeAll]
  cases hone : t.makeOne cwd ⟨anchor, (name :: above).reverse⟩ with
  | ok made => simp
  | error fault =>
      cases fault with
      | missing =>
          rcases t.makeAll cwd anchor above with ⟨made, fault | _⟩
          · simp
          · generalize (⟨anchor, (name :: above).reverse⟩ : Path) = directory
            cases hlast : made.makeOne cwd directory <;> simp [hlast]
      | _ => simp

theorem frame_makeAll (hcwd : t.Linkless cwd) (h : t.makeAll cwd anchor names = (t', .ok ())) :
    Frame cwd (OnTheWay ⟨anchor, names.reverse⟩) files t t' := by
  induction names generalizing t' with
  | nil => exact frame_makeOne hcwd (.refl _) (makeAll_nil_eq_ok_iff.1 h)
  | cons name above ih =>
      rcases makeAll_cons_eq_ok_iff.1 h with hone | ⟨-, made, hmade, hlast⟩
      · exact frame_makeOne hcwd (.refl _) hone
      · have habove : Frame cwd (OnTheWay ⟨anchor, (name :: above).reverse⟩) files t made :=
          (ih hmade).mono (fun p hp => OnTheWay.above hp) (fun p hp => hp)
        exact habove.trans (frame_makeOne (habove.extension.linkless hcwd) (.refl _) hlast)

theorem extends_makeAll (hcwd : t.Linkless cwd) (h : t.makeAll cwd anchor names = (t', .ok ())) :
    t.Extends t' :=
  have hframe : Frame cwd (OnTheWay ⟨anchor, names.reverse⟩) (fun _ => False) t t' :=
    frame_makeAll hcwd h
  hframe.extension

theorem frame_makeDirectories (hcwd : t.Linkless cwd)
    (h : t.makeDirectories cwd p true = (t', .ok ())) : Frame cwd (OnTheWay p) files t t' := by
  have hframe : Frame cwd (OnTheWay ⟨p.anchor, p.parts.reverse.reverse⟩) files t t' :=
    frame_makeAll hcwd (by simpa [makeDirectories] using h)
  simpa using hframe

theorem extends_makeDirectories (hcwd : t.Linkless cwd)
    (h : t.makeDirectories cwd p true = (t', .ok ())) : t.Extends t' :=
  have hframe : Frame cwd (OnTheWay p) (fun _ => False) t t' := frame_makeDirectories hcwd h
  hframe.extension

end SolidityFlattener.Tree
