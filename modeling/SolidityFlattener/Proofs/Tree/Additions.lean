import SolidityFlattener.Proofs.Tree.Straight

/-!
What a tree grows by.

Making a directory or writing a file puts one entry after all others, or in the place of one, so
the locations of a tree stay as they are and in their order, and new ones come after them. Where all
that is new or changed lies at or below one location, a directory elsewhere holds the names that it
held before; only the directory that the location is in can have come to hold one more.
-/

namespace SolidityFlattener.Tree

variable {t t' t'' : Tree} {cwd here place top above : Location} {name : Text} {names : List Text}
  {entry : Entry} {p directory : Path} {text : Text} {anchor : Anchor} {files : Path → Prop}

/-! ### Locations -/

/-- The locations that a tree has entries for, in their order. -/
def locations (t : Tree) : List Location := t.entries.map Prod.fst

theorem mem_locations_iff (hne : place ≠ []) : place ∈ t.locations ↔ t.lookup place ≠ none := by
  rw [lookup, if_neg hne, locations, Ne, List.lookup_eq_none_iff]
  constructor
  · intro hmem hnone
    obtain ⟨e, he, rfl⟩ := List.mem_map.1 hmem
    simpa using hnone e he
  · intro hsome
    obtain ⟨e, he, heq⟩ : ∃ e ∈ t.entries, place = e.1 := by simpa using hsome
    exact List.mem_map.2 ⟨e, he, heq.symm⟩

theorem map_fst_put (place : Location) (entry : Entry) (entries : List (Location × Entry)) :
    (put place entry entries).map Prod.fst =
      if place ∈ entries.map Prod.fst then entries.map Prod.fst
      else entries.map Prod.fst ++ [place] := by
  induction entries with
  | nil => rfl
  | cons e rest ih =>
      obtain ⟨other, old⟩ := e
      rw [put]
      by_cases hother : other = place
      · simp [hother]
      · rw [if_neg hother, List.map_cons, ih]
        simp only [List.map_cons, List.mem_cons, Ne.symm hother, false_or]
        split <;> simp

/-- The locations of one tree are those of another with further ones after them. -/
def Appends (t t' : Tree) : Prop :=
  ∃ added, t'.locations = t.locations ++ added ∧ added.Nodup ∧
    ∀ place ∈ added, place ≠ [] ∧ place ∉ t.locations

namespace Appends

theorem refl (t : Tree) : t.Appends t := ⟨[], by simp⟩

theorem trans (h : t.Appends t') (h' : t'.Appends t'') : t.Appends t'' := by
  obtain ⟨added, hlocations, hnodup, hnew⟩ := h
  obtain ⟨added', hlocations', hnodup', hnew'⟩ := h'
  refine ⟨added ++ added', by rw [hlocations', hlocations, List.append_assoc], ?_, ?_⟩
  · refine List.nodup_append'.2 ⟨hnodup, hnodup', fun place hplace hplace' => ?_⟩
    exact (hnew' place hplace').2 (hlocations ▸ List.mem_append_right _ hplace)
  · intro place hplace
    rcases List.mem_append.1 hplace with hplace | hplace
    · exact hnew place hplace
    · obtain ⟨hne, hnot⟩ := hnew' place hplace
      exact ⟨hne, fun hmem => hnot (hlocations ▸ List.mem_append_left _ hmem)⟩

theorem insert (hne : place ≠ []) (entry : Entry) : t.Appends (t.insert place entry) := by
  have hput : (t.insert place entry).locations =
      if place ∈ t.locations then t.locations else t.locations ++ [place] :=
    map_fst_put place entry t.entries
  by_cases hmem : place ∈ t.locations
  · exact ⟨[], by simpa [hmem] using hput⟩
  · exact ⟨[place], by simp [hput, hmem], List.nodup_singleton place, by simp [hne, hmem]⟩

end Appends

theorem appends_makeOne (h : t.makeOne cwd p = .ok t') : t.Appends t' := by
  rcases makeOne_cases h with hmade | rfl
  · obtain ⟨place, -, hnone, rfl⟩ := makeDirectory_eq_ok_iff.1 hmade
    exact .insert (ne_nil_of_lookup_ne t (by simp [hnone])) _
  · exact .refl t'

theorem appends_makeAll (h : t.makeAll cwd anchor names = (t', .ok ())) : t.Appends t' := by
  induction names generalizing t' with
  | nil => exact appends_makeOne (makeAll_nil_eq_ok_iff.1 h)
  | cons name above ih =>
      rcases makeAll_cons_eq_ok_iff.1 h with hone | ⟨-, made, hmade, hlast⟩
      · exact appends_makeOne hone
      · exact (ih hmade).trans (appends_makeOne hlast)

theorem appends_makeDirectories (h : t.makeDirectories cwd p true = (t', .ok ())) :
    t.Appends t' := appends_makeAll (by simpa [makeDirectories] using h)

theorem appends_write (h : t.write cwd p text = .ok t') : t.Appends t' := by
  obtain ⟨place, -, hdir, rfl⟩ := write_eq_ok_iff.1 h
  exact .insert (ne_nil_of_lookup_ne t fun hfound => hdir (by simp [isDirectoryAt, hfound])) _

/-! ### Names in a directory -/

/-- The name that a location has in a directory, if it is there. -/
def nameIn (here place : Location) : Option Text :=
  match place.reverse with
  | [] => none
  | name :: above => if above.reverse = here then some name else none

theorem nameIn_eq_some_iff : nameIn here place = some name ↔ place = here ++ [name] := by
  obtain rfl | ⟨above, last, rfl⟩ := place.eq_nil_or_concat
  · simp [nameIn]
  · simp only [nameIn, List.concat_eq_append, List.reverse_append, List.reverse_singleton,
      List.singleton_append, List.reverse_reverse]
    have hsnoc : above ++ [last] = here ++ [name] ↔ above = here ∧ last = name := by simp
    rw [hsnoc]
    split <;> simp_all

theorem namesAt_eq_filterMap (t : Tree) (here : Location) :
    t.namesAt here = t.locations.filterMap (nameIn here) := by
  rw [locations, List.filterMap_map]
  rfl

theorem mem_namesAt_iff : name ∈ t.namesAt here ↔ here ++ [name] ∈ t.locations := by
  simp [namesAt_eq_filterMap, nameIn_eq_some_iff]

theorem Named.isEntryName_of_mem_namesAt (hnamed : t.Named) (h : name ∈ t.namesAt here) :
    ∀ other ∈ here ++ [name], IsEntryName other := by
  obtain ⟨e, he, heq⟩ := List.mem_map.1 (mem_namesAt_iff.1 h)
  exact fun other hother => hnamed e he other (heq ▸ hother)

theorem filterMap_eq_toList {α β : Type} [DecidableEq α] {f : α → Option β} {as : List α} {a : α}
    (hnodup : as.Nodup) (h : ∀ b ∈ as, f b ≠ none → b = a) :
    as.filterMap f = if a ∈ as then (f a).toList else [] := by
  induction as with
  | nil => rfl
  | cons b as ih =>
      obtain ⟨hb, has⟩ := List.forall_mem_cons.1 h
      obtain ⟨hnot, hnodup⟩ := List.nodup_cons.1 hnodup
      rw [← List.singleton_append, List.filterMap_append, ih hnodup has]
      by_cases hba : b = a
      · subst hba
        cases hf : f b <;> simp [hnot, hf]
      · have hnone : f b = none := by
          by_contra hsome
          exact hba (hb hsome)
        simp [hnone, Ne.symm hba]

/-! ### Growth below a location -/

/-- A tree that has grown and changed at or below a location only. -/
structure GrowsBelow (top : Location) (t t' : Tree) : Prop where
  extension : t.Extends t'
  appended : t.Appends t'
  elsewhere : ∀ place, ¬top <+: place → t'.lookup place = t.lookup place

namespace GrowsBelow

theorem refl (top : Location) (t : Tree) : GrowsBelow top t t :=
  ⟨.refl t, .refl t, fun _ _ => rfl⟩

theorem trans (h : GrowsBelow top t t') (h' : GrowsBelow top t' t'') : GrowsBelow top t t'' where
  extension := h.extension.trans h'.extension
  appended := h.appended.trans h'.appended
  elsewhere := fun place hplace => (h'.elsewhere place hplace).trans (h.elsewhere place hplace)

theorem shapeAt (h : GrowsBelow top t t') (hplace : ¬top <+: place) :
    t'.shapeAt place = t.shapeAt place := shapeAt_congr (h.elsewhere place hplace)

/-- What is new lies at or below the location. -/
theorem prefix_of_not_mem (h : GrowsBelow top t t') (hne : place ≠ [])
    (hplace : place ∈ t'.locations) (hnew : place ∉ t.locations) : top <+: place := by
  by_contra hnot
  rw [mem_locations_iff hne] at hplace hnew
  exact hnew (h.elsewhere place hnot ▸ hplace)

/-- A directory that is not at or below the location holds the same names as before, and at most the
location's own in addition. -/
theorem namesAt_eq_or (h : GrowsBelow (above ++ [name]) t t') (hhere : ¬above ++ [name] <+: here) :
    t'.namesAt here = t.namesAt here ∨
      here = above ∧ t'.namesAt here = t.namesAt here ++ [name] := by
  obtain ⟨added, hlocations, hnodup, hnew⟩ := h.appended
  have hadded : ∀ place ∈ added, nameIn here place ≠ none → place = above ++ [name] := by
    intro place hplace hsome
    obtain ⟨other, hother⟩ := Option.ne_none_iff_exists'.1 hsome
    have hbelow := h.prefix_of_not_mem (hnew place hplace).1
      (hlocations ▸ List.mem_append_right _ hplace) (hnew place hplace).2
    rw [nameIn_eq_some_iff.1 hother, List.prefix_concat_iff] at hbelow
    rw [nameIn_eq_some_iff.1 hother]
    exact (hbelow.resolve_right hhere).symm
  rw [namesAt_eq_filterMap, namesAt_eq_filterMap, hlocations, List.filterMap_append,
    filterMap_eq_toList hnodup hadded]
  split
  · by_cases heq : here = above
    · have hown : nameIn here (above ++ [name]) = some name :=
        nameIn_eq_some_iff.2 (by rw [heq])
      exact .inr ⟨heq, by rw [hown, Option.toList_some]⟩
    · have hnone : nameIn here (above ++ [name]) = none := by
        by_contra hsome
        obtain ⟨other, hother⟩ := Option.ne_none_iff_exists'.1 hsome
        exact heq (List.append_inj_left' (nameIn_eq_some_iff.1 hother) rfl).symm
      exact .inl (by rw [hnone, Option.toList_none, List.append_nil])
  · exact .inl (List.append_nil _)

end GrowsBelow

/-! ### What is made on the way to a directory -/

theorem Plain.of_prefix (h : t.Plain place) (habove : above <+: place) : t.Plain above := by
  induction h with
  | root => exact List.prefix_nil.1 habove ▸ .root
  | child hhere hparent hnul hentry hlink ih =>
      rcases List.prefix_concat_iff.1 habove with rfl | habove
      · exact .child hhere hparent hnul hentry hlink
      · exact ih habove

/-- Without links, what is made on the way to a directory and written in it lies at or below the
first location on the way that was not there. -/
theorem GrowsBelow.of_frame {rest : List Text} (h : Frame cwd (OnTheWay directory) files t t')
    (happended : t.Appends t') (hlinks : t.LinkFree) (hplain : t.Plain here)
    (hdirectory : directory = .ofLocation (here ++ name :: rest))
    (hnames : ∀ name ∈ directory.parts, IsEntryName name)
    (hfiles : ∀ p, files p →
      ∃ last, p = .ofLocation (directory.parts ++ [last]) ∧ IsEntryName last) :
    GrowsBelow (here ++ [name]) t t' := by
  refine ⟨h.extension, happended, fun place hplace => ?_⟩
  have hlinks' := hlinks.of_extends h.extension
  have hfirst : here ++ [name] <+: directory.parts := by
    rw [hdirectory]
    exact ⟨rest, by simp [Path.ofLocation]⟩
  by_contra hchanged
  rcases h.changed place hchanged with
    ⟨hdir, p, ⟨hanchor, habove⟩, hlocate⟩ | ⟨-, p, hp, hlocate⟩
  · have hroot : p.origin cwd = [] := by
      rw [Path.origin, Path.isAbsolute, hanchor, hdirectory]
      rfl
    have hplace' : place = p.parts := by
      rw [hlinks'.eq_straight hlocate, hroot]
      exact straight_of_isEntryName (fun name hname => hnames name (habove.subset hname)) []
    -- a directory above the first new location was there before
    have hhere : place <+: here := by
      rcases List.prefix_or_prefix_of_prefix (hplace' ▸ habove) hfirst with hshort | hlong
      · rcases List.prefix_concat_iff.1 hshort with rfl | hshort
        · exact absurd (List.prefix_refl _) hplace
        · exact hshort
      · exact absurd hlong hplace
    have hkept := h.extension.kept place (hplain.of_prefix hhere).lookup_ne_none
    obtain ⟨old, hold⟩ := Option.ne_none_iff_exists'.1 (hplain.of_prefix hhere).lookup_ne_none
    rw [Tree.shapeAt, Tree.shapeAt, hold, hdir] at hkept
    cases old <;> simp_all [Entry.shape]
  · obtain ⟨last, rfl, hlast⟩ := hfiles p hp
    have hstraight : place = directory.parts ++ [last] := by
      rw [hlinks'.eq_straight hlocate]
      refine straight_of_isEntryName (fun name hname => ?_) []
      rcases List.mem_append.1 hname with hname | hname
      · exact hnames name hname
      · rwa [List.mem_singleton.1 hname]
    exact hplace (hstraight ▸ hfirst.trans (List.prefix_append _ _))

end SolidityFlattener.Tree
