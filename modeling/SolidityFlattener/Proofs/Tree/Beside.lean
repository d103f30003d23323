import SolidityFlattener.Proofs.Tree.Making

/-!
The same change made to two trees.

What is made or written depends on what is looked up for it, so two trees that agree on that change
alike. `Beside` says so of the trees before and after: those after agree where something was looked
up, and everywhere else each is as it was.
-/

namespace SolidityFlattener.Tree

variable {looked : Set Location} {t t' t'' b b' b'' final : Tree} {cwd place : Location} {p : Path}
  {text : Text} {anchor : Anchor} {names : List Text} {aim : Aim}

/-- Two trees with the same at some locations. -/
def AgreeOn (looked : Set Location) (t b : Tree) : Prop :=
  ∀ place ∈ looked, b.lookup place = t.lookup place

/-- Two trees have changed in the same way, at some locations only, on which they agree. -/
structure Beside (looked : Set Location) (t b t' b' : Tree) : Prop where
  agree : AgreeOn looked t' b'
  rest : ∀ place ∉ looked, t'.lookup place = t.lookup place ∧ b'.lookup place = b.lookup place

namespace Beside

theorem refl (h : AgreeOn looked t b) : Beside looked t b t b := ⟨h, fun _ _ => ⟨rfl, rfl⟩⟩

theorem trans (h : Beside looked t b t' b') (h' : Beside looked t' b' t'' b'') :
    Beside looked t b t'' b'' where
  agree := h'.agree
  rest := fun place hplace =>
    ⟨(h'.rest place hplace).1.trans (h.rest place hplace).1,
      (h'.rest place hplace).2.trans (h.rest place hplace).2⟩

theorem insert (h : AgreeOn looked t b) (hplace : place ∈ looked) (hne : place ≠ [])
    (entry : Entry) : Beside looked t b (t.insert place entry) (b.insert place entry) where
  agree := by
    intro other hother
    rw [lookup_insert b place other entry hne, lookup_insert t place other entry hne,
      h other hother]
  rest := by
    intro other hother
    have hdiffers : other ≠ place := by
      rintro rfl
      exact hother hplace
    exact ⟨lookup_insert_of_ne hne hdiffers, lookup_insert_of_ne hne hdiffers⟩

end Beside

/-- Two changes that succeed alike or fail alike. -/
def Alike (looked : Set Location) (t b : Tree) : Except Fault Tree → Except Fault Tree → Prop
  | .ok t', .ok b' => Beside looked t b t' b'
  | .error fault, .error fault' => fault = fault'
  | _, _ => False

/-! ### One access -/

theorem AgreeOn.shapeAt (h : AgreeOn looked t b) (hplace : place ∈ looked) :
    b.shapeAt place = t.shapeAt place := shapeAt_congr (h place hplace)

theorem AgreeOn.locate_eq (h : AgreeOn looked t b)
    (hlooked : ∀ place ∈ t.locateLookups aim cwd p, place ∈ looked) :
    b.locate aim cwd p = t.locate aim cwd p :=
  locate_congr fun place hplace => h.shapeAt (hlooked place hplace)

theorem alike_makeDirectory (h : AgreeOn looked t b)
    (hlooked : ∀ place ∈ t.locateLookups .entry cwd p, place ∈ looked) :
    Alike looked t b (t.makeDirectory cwd p) (b.makeDirectory cwd p) := by
  unfold makeDirectory
  rw [h.locate_eq hlooked]
  cases hlocate : t.locate .entry cwd p with
  | error fault => exact rfl
  | ok place =>
      have hplace := hlooked place (mem_locateLookups hlocate)
      simp only [bind, Except.bind, h place hplace]
      cases hlookup : t.lookup place with
      | none => exact .insert h hplace (ne_nil_of_lookup_ne t (by simp [hlookup])) .directory
      | some entry => exact rfl

theorem alike_write (h : AgreeOn looked t b)
    (hlooked : ∀ place ∈ t.locateLookups .newFile cwd p, place ∈ looked) (text : Text) :
    Alike looked t b (t.write cwd p text) (b.write cwd p text) := by
  unfold write
  rw [h.locate_eq hlooked]
  cases hlocate : t.locate .newFile cwd p with
  | error fault => exact rfl
  | ok place =>
      have hplace := hlooked place (mem_locateLookups hlocate)
      simp only [bind, Except.bind, isDirectoryAt_congr (h.shapeAt hplace)]
      cases hdir : t.isDirectoryAt place with
      | true => exact rfl
      | false =>
          refine .insert h hplace (ne_nil_of_lookup_ne t fun hfound => ?_) _
          simp [isDirectoryAt, hfound] at hdir

/-- Where a directory cannot be made there may be one already. -/
theorem makeOne_of_error {fault : Fault} (h : t.makeDirectory cwd p = .error fault) :
    t.makeOne cwd p =
      if fault = .missing ∨ fault.isOfText then .error fault
      else match t.isDirectory cwd p with
        | .ok true => .ok t
        | .ok false => .error fault
        | .error other => .error other := by
  unfold makeOne
  rw [h]
  cases fault <;> rfl

theorem alike_makeOne (h : AgreeOn looked t b)
    (hlooked : ∀ aim, ∀ place ∈ t.locateLookups aim cwd p, place ∈ looked) :
    Alike looked t b (t.makeOne cwd p) (b.makeOne cwd p) := by
  have hmake := alike_makeDirectory h (hlooked .entry)
  have hdirectory : b.isDirectory cwd p = t.isDirectory cwd p :=
    isDirectory_congr fun place hplace => h.shapeAt (hlooked .target place hplace)
  cases hmade : t.makeDirectory cwd p with
  | ok made =>
      cases hmade' : b.makeDirectory cwd p with
      | ok made' => simpa [makeOne, hmade, hmade'] using hmake
      | error fault => simp [hmade, hmade', Alike] at hmake
  | error fault =>
      cases hmade' : b.makeDirectory cwd p with
      | ok made' => simp [hmade, hmade', Alike] at hmake
      | error fault' =>
          obtain rfl : fault = fault' := by simpa [hmade, hmade', Alike] using hmake
          rw [makeOne_of_error hmade, makeOne_of_error hmade', hdirectory]
          split_ifs
          · exact rfl
          · cases t.isDirectory cwd p with
            | error other => exact rfl
            | ok found =>
                cases found with
                | false => exact rfl
                | true => exact .refl h

theorem Alike.exists_of_ok {x y : Except Fault Tree} (h : Alike looked t b x y) (hx : x = .ok t') :
    ∃ b', y = .ok b' ∧ Beside looked t b t' b' := by
  subst hx
  cases y with
  | error fault => simp [Alike] at h
  | ok b' => exact ⟨b', rfl, h⟩

theorem Alike.eq_error {x y : Except Fault Tree} {fault : Fault} (h : Alike looked t b x y)
    (hx : x = .error fault) : y = .error fault := by
  subst hx
  cases y with
  | error other => rw [show fault = other from h]
  | ok b' => simp [Alike] at h

/-! ### Directories on the way -/

/-- On two trees that agree on all that is looked up on the way to a directory, it is made alike.
What is looked up on the way is so at the latest in a tree that what results has grown to. -/
theorem exists_beside_makeAll (h : AgreeOn looked t b) (hcwd : t.Linkless cwd)
    (hmade : t.makeAll cwd anchor names = (t', .ok ())) (hfinal : t'.Extends final)
    (hlooked : ∀ p, OnTheWay ⟨anchor, names.reverse⟩ p → ∀ aim,
      ∀ place ∈ final.locateLookups aim cwd p, place ∈ looked) :
    ∃ b', b.makeAll cwd anchor names = (b', .ok ()) ∧ Beside looked t b t' b' := by
  have hearly : ∀ {u : Tree} {p : Path}, u.Extends final → OnTheWay ⟨anchor, names.reverse⟩ p →
      ∀ aim, ∀ place ∈ u.locateLookups aim cwd p, place ∈ looked := by
    intro u p hextends hp aim place hplace
    exact hlooked p hp aim place (hextends.locateLookups_subset aim cwd p hplace)
  have hstart := (extends_makeAll hcwd hmade).trans hfinal
  induction names generalizing t' with
  | nil =>
      have hone := makeAll_nil_eq_ok_iff.1 hmade
      obtain ⟨b', hb', hbeside⟩ :=
        (alike_makeOne h (hearly hstart (.refl _))).exists_of_ok hone
      exact ⟨b', makeAll_nil_eq_ok_iff.2 hb', hbeside⟩
  | cons name above ih =>
      rcases makeAll_cons_eq_ok_iff.1 hmade with hone | ⟨hmissing, made, habove, hlast⟩
      · obtain ⟨b', hb', hbeside⟩ :=
          (alike_makeOne h (hearly hstart (.refl _))).exists_of_ok hone
        exact ⟨b', makeAll_cons_eq_ok_iff.2 (.inl hb'), hbeside⟩
      · have hmissing' := (alike_makeOne h (hearly hstart (.refl _))).eq_error hmissing
        have hbetween := extends_makeAll hcwd habove
        have hrest := (extends_makeOne (hbetween.linkless hcwd) hlast).trans hfinal
        obtain ⟨c, hc, hbeside⟩ := ih habove hrest (fun p hp => hlooked p hp.above)
          (fun hextends hp => hearly hextends hp.above)
        obtain ⟨b', hb', hlastBeside⟩ :=
          (alike_makeOne hbeside.agree (hearly hrest (.refl _))).exists_of_ok hlast
        exact ⟨b', makeAll_cons_eq_ok_iff.2 (.inr ⟨hmissing', c, hc, hb'⟩),
          hbeside.trans hlastBeside⟩

theorem exists_beside_makeDirectories (h : AgreeOn looked t b) (hcwd : t.Linkless cwd)
    (hmade : t.makeDirectories cwd p true = (t', .ok ())) (hfinal : t'.Extends final)
    (hlooked : ∀ q, OnTheWay p q → ∀ aim,
      ∀ place ∈ final.locateLookups aim cwd q, place ∈ looked) :
    ∃ b', b.makeDirectories cwd p true = (b', .ok ()) ∧ Beside looked t b t' b' := by
  simp only [makeDirectories, if_true] at hmade ⊢
  exact exists_beside_makeAll h hcwd hmade hfinal (by simpa using hlooked)

/-- With a file to be made below a directory, all that is looked up on the way to the directory is
looked up for the file. -/
theorem locateLookups_subset_of_onTheWay {directory file : Path} {last : Text}
    (hp : OnTheWay directory p) (hanchor : file.anchor = directory.anchor)
    (hparts : file.parts = directory.parts ++ [last]) (hlast : last ≠ []) (hask : Askable file)
    (t : Tree) (aim : Aim) (cwd : Location) :
    t.locateLookups aim cwd p ⊆ t.locateLookups .newFile cwd file := by
  obtain ⟨hpanchor, between, hbetween⟩ := hp
  unfold locateLookups
  split_ifs
  · have horigin : file.origin cwd = p.origin cwd := by
      simp [Path.origin, Path.isAbsolute, hanchor, hpanchor]
    have hmore : file.parts = p.parts ++ (between ++ [last]) := by
      rw [hparts, ← hbetween, List.append_assoc]
    have hslash : between ++ [last] ≠ [[]] := by
      intro heq
      rcases List.append_eq_singleton_iff.1 heq with ⟨-, h⟩ | ⟨-, h⟩
      · exact hlast (List.singleton_inj.1 h)
      · simp at h
    rw [startOf, startOf, horigin, hmore]
    exact walkLookups_append t aim ⟨linkLimit, p.origin cwd, p.parts⟩ (by simp) hslash
  · exact List.nil_subset _

end SolidityFlattener.Tree
