import SolidityFlattener.Proofs.Tree.Canonical
import SolidityFlattener.Proofs.Tree.Lookups

/-!
Trees in which more stands than before.

A tree extends another if what stood somewhere is still of its kind, and what is new is no link. A
walk that leads somewhere in a tree leads there in all that extend it, and looks up no less there.
A walk from a location that no link leads through comes to another one of this kind, so what is put
where it ends, unless that is a link, extends the tree.
-/

namespace SolidityFlattener.Tree

variable {t t' t'' : Tree} {here place other cwd : Location} {entry : Entry} {name : Text}
  {names rest more : List Text} {aim aim' : Aim} {s next : Standing} {p : Path}

theorem lookup_eq_link_iff {target : Text} :
    t.lookup place = some (.link target) ↔ t.shapeAt place = some (.link target) := by
  unfold shapeAt
  cases t.lookup place with
  | none => simp
  | some entry => cases entry <;> simp [Entry.shape]

/-! ### One entry put at a location -/

/-- The root is a directory, so anything else stands below it. -/
theorem ne_nil_of_lookup_ne (t : Tree) (h : t.lookup place ≠ some .directory) : place ≠ [] := by
  rintro rfl
  exact h rfl

theorem ne_nil_of_lookup_file {content : ByteArray} (h : t.lookup place = some (.file content)) :
    place ≠ [] := ne_nil_of_lookup_ne t (by simp [h])

theorem lookup_cons_eq_ite (key other : Location) (old : Entry)
    (rest : List (Location × Entry)) :
    ((key, old) :: rest).lookup other = if other = key then some old else rest.lookup other := by
  rw [List.lookup_cons]
  by_cases h : other = key
  · simp [h]
  · rw [beq_eq_false_iff_ne.2 h, if_neg h]

theorem lookup_put (place other : Location) (entry : Entry) (entries : List (Location × Entry)) :
    (put place entry entries).lookup other =
      if other = place then some entry else entries.lookup other := by
  induction entries with
  | nil => exact lookup_cons_eq_ite place other entry []
  | cons e rest ih =>
      obtain ⟨key, old⟩ := e
      rw [put, lookup_cons_eq_ite]
      by_cases hkey : key = place
      · rw [if_pos hkey, lookup_cons_eq_ite, hkey]
        split_ifs <;> rfl
      · rw [if_neg hkey, lookup_cons_eq_ite, ih]
        split_ifs with h h'
        · exact absurd (h.symm.trans h') hkey
        · rfl
        · rfl
        · rfl

theorem lookup_insert (t : Tree) (place other : Location) (entry : Entry) (hne : place ≠ []) :
    (t.insert place entry).lookup other = if other = place then some entry else t.lookup other := by
  simp only [lookup, insert, lookup_put]
  by_cases hroot : other = []
  · simp [hroot, Ne.symm hne]
  · simp [hroot]

theorem lookup_insert_self (hne : place ≠ []) : (t.insert place entry).lookup place = some entry :=
  by rw [lookup_insert t place place entry hne, if_pos rfl]

theorem lookup_insert_of_ne (hne : place ≠ []) (h : other ≠ place) :
    (t.insert place entry).lookup other = t.lookup other := by
  rw [lookup_insert t place other entry hne, if_neg h]

theorem mem_put {e : Location × Entry} {entries : List (Location × Entry)}
    (h : e ∈ put place entry entries) : e = (place, entry) ∨ e ∈ entries := by
  induction entries with
  | nil => exact .inl (List.mem_singleton.1 h)
  | cons first rest ih =>
      obtain ⟨key, old⟩ := first
      simp only [put] at h
      split_ifs at h with hkey
      · exact (List.mem_cons.1 h).imp_right (List.mem_cons_of_mem _)
      · rcases List.mem_cons.1 h with rfl | h
        · exact .inr List.mem_cons_self
        · exact (ih h).imp_right (List.mem_cons_of_mem _)

theorem Named.insert (hnamed : t.Named) (hplace : ∀ name ∈ place, IsEntryName name) :
    (t.insert place entry).Named := by
  intro e he
  rcases mem_put he with rfl | he
  · exact hplace
  · exact hnamed e he

/-- What is no link and is put where none stands leaves the list of links. -/
theorem links_insert (hne : place ≠ []) (hentry : ∀ target, entry ≠ .link target)
    (hold : ∀ target, t.lookup place ≠ some (.link target)) :
    (t.insert place entry).links = t.links := by
  have hput : ∀ entries : List (Location × Entry),
      (∀ target, entries.lookup place ≠ some (.link target)) →
        (Tree.mk (put place entry entries)).links = (Tree.mk entries).links := by
    intro entries hentries
    induction entries with
    | nil => cases entry <;> simp_all [links, put]
    | cons e rest ih =>
        obtain ⟨key, old⟩ := e
        by_cases hkey : key = place
        · subst hkey
          have hold' : ∀ target, old ≠ .link target := by
            simpa [lookup_cons_eq_ite] using hentries
          cases entry <;> cases old <;> simp_all [links, put]
        · have hrest := ih (by simpa [lookup_cons_eq_ite, Ne.symm hkey] using hentries)
          simp only [links, put, if_neg hkey] at hrest ⊢
          rw [List.filter_cons, List.filter_cons]
          split <;> simp [hrest]
  exact hput t.entries (by simpa [lookup, hne] using hold)

/-! ### Extensions -/

/-- A tree with all that is in another one, where it is no new link that has come. -/
structure Extends (t t' : Tree) : Prop where
  kept : ∀ place, t.lookup place ≠ none → t'.shapeAt place = t.shapeAt place
  fresh : ∀ place target, t'.lookup place = some (.link target) → t.lookup place ≠ none
  links : t'.links = t.links
  named : t.Named → t'.Named

namespace Extends

theorem refl (t : Tree) : t.Extends t :=
  ⟨fun _ _ => rfl, fun _ _ h => by simp [h], rfl, id⟩

theorem lookup_ne_none (h : t.Extends t') (hplace : t.lookup place ≠ none) :
    t'.lookup place ≠ none := by
  have hkept := h.kept place hplace
  intro hnone
  rw [shapeAt, hnone, shapeAt] at hkept
  cases hlookup : t.lookup place with
  | none => exact hplace hlookup
  | some entry => simp [hlookup] at hkept

theorem trans (h : t.Extends t') (h' : t'.Extends t'') : t.Extends t'' where
  kept := fun place hplace => (h'.kept place (h.lookup_ne_none hplace)).trans (h.kept place hplace)
  fresh := by
    intro place target hlink
    have hkept := h'.kept place (h'.fresh place target hlink)
    rw [lookup_eq_link_iff.1 hlink] at hkept
    exact h.fresh place target (lookup_eq_link_iff.2 hkept.symm)
  links := h'.links.trans h.links
  named := h'.named ∘ h.named

theorem isDirectoryAt (h : t.Extends t') (hdir : t.isDirectoryAt here) :
    t'.isDirectoryAt here := by
  have hne : t.lookup here ≠ none := by
    intro hnone
    simp [Tree.isDirectoryAt, hnone] at hdir
  rwa [isDirectoryAt_congr (h.kept here hne)]

theorem shapeAt (h : t.Extends t') (hshape : t.shapeAt place = some entry) :
    t'.shapeAt place = some entry := by
  have hne : t.lookup place ≠ none := by
    intro hnone
    simp [Tree.shapeAt, hnone] at hshape
  rwa [h.kept place hne]

/-- What is new is no link. -/
theorem shapeAt_of_none (h : t.Extends t') (hnone : t.shapeAt place = none) (target : Text) :
    t'.shapeAt place ≠ some (.link target) := by
  intro hlink
  have hne := h.fresh place target (lookup_eq_link_iff.2 hlink)
  exact hne (by simpa [Tree.shapeAt] using hnone)

theorem insert (hne : place ≠ []) (hentry : ∀ target, entry ≠ .link target)
    (hold : ∀ old, t.lookup place = some old → old.shape = entry.shape)
    (hplace : ∀ name ∈ place, IsEntryName name) : t.Extends (t.insert place entry) where
  kept := by
    intro other hother
    by_cases heq : other = place
    · subst heq
      obtain ⟨old, hlookup⟩ := Option.ne_none_iff_exists'.1 hother
      rw [Tree.shapeAt, Tree.shapeAt, lookup_insert_self hne, hlookup, Option.map_some,
        Option.map_some, hold old hlookup]
    · exact shapeAt_congr (lookup_insert_of_ne hne heq)
  fresh := by
    intro other target hlink
    by_cases heq : other = place
    · rw [heq, lookup_insert_self hne] at hlink
      exact absurd (Option.some.inj hlink) (hentry target)
    · rw [lookup_insert_of_ne hne heq] at hlink
      simp [hlink]
  links := by
    refine links_insert hne hentry fun target hlink => ?_
    have hshape := hold _ hlink
    cases entry <;> simp_all [Entry.shape]
  named := fun hnamed => hnamed.insert hplace

theorem plain (h : t.Extends t') (hplain : t.Plain place) : t'.Plain place := by
  induction hplain with
  | root => exact .root
  | @child here name entry _ hparent hnul hentry hlink ih =>
      have hshape : t'.shapeAt (here ++ [name]) = some entry.shape :=
        h.shapeAt (by rw [Tree.shapeAt, hentry, Option.map_some])
      cases hlookup : t'.lookup (here ++ [name]) with
      | none => simp [Tree.shapeAt, hlookup] at hshape
      | some found =>
          refine .child ih hparent hnul hlookup fun target hfound => ?_
          rw [hfound] at hlookup
          rw [lookup_eq_link_iff.1 hlookup] at hshape
          cases entry with
          | file content => cases hshape
          | directory => cases hshape
          | link target => exact hlink target rfl

theorem links_eq (h : t.Extends t') {target : Text}
    (hlink : t'.lookup place = some (.link target)) : t.lookup place = some (.link target) := by
  have hkept := h.kept place (h.fresh place target hlink)
  rw [lookup_eq_link_iff.1 hlink] at hkept
  exact lookup_eq_link_iff.2 hkept.symm

/-! ### Walks in an extension -/

theorem goes (h : t.Extends t') (hgoes : t.Goes aim s next) : t'.Goes aim s next := by
  cases hgoes with
  | skip hdir hblank => exact .skip (h.isDirectoryAt hdir) hblank
  | parent hdir => exact .parent (h.isDirectoryAt hdir)
  | child hdir hasks hshape hlink =>
      exact .child (h.isDirectoryAt hdir) hasks (h.shapeAt hshape) hlink
  | follow hdir hasks hshape hlast =>
      exact .follow (h.isDirectoryAt hdir) hasks (h.shapeAt hshape) hlast

/-- Where a walk ended because nothing stood there, it may end now at what does. -/
theorem leads_of_ends (h : t.Extends t') (hends : t.Ends aim s place) : t'.Leads aim s place := by
  cases hends with
  | here => exact .ends .here
  | @missing links here name hdir hasks hshape =>
      cases hnow : t'.shapeAt (here ++ [name]) with
      | none => exact .ends (.missing (h.isDirectoryAt hdir) hasks hnow)
      | some entry =>
          have hlink : ∀ target, entry ≠ .link target := by
            rintro target rfl
            exact h.shapeAt_of_none hshape target hnow
          exact .goes (.child (h.isDirectoryAt hdir) hasks hnow hlink) (.ends .here)
  | link hdir hasks hshape haim =>
      exact .ends (.link (h.isDirectoryAt hdir) hasks (h.shapeAt hshape) haim)

theorem leads (h : t.Extends t') (hleads : t.Leads aim s place) : t'.Leads aim s place := by
  induction hleads with
  | ends hends => exact h.leads_of_ends hends
  | goes hgoes _ ih => exact .goes (h.goes hgoes) ih

theorem locate (h : t.Extends t') (hplace : t.locate aim cwd p = .ok place) :
    t'.locate aim cwd p = .ok place := by
  obtain ⟨hask, hleads⟩ := locate_eq_ok_iff.1 hplace
  exact locate_eq_ok_iff.2 ⟨hask, h.leads hleads⟩

theorem glances_subset (h : t.Extends t') (aim : Aim) (s : Standing) :
    t.glances aim s ⊆ t'.glances aim s := by
  obtain ⟨links, here, names⟩ := s
  cases names with
  | nil => exact List.Subset.refl _
  | cons name rest =>
      by_cases hasks : t.isDirectoryAt here ∧ Asks aim name rest
      · have hasks' := And.imp_left h.isDirectoryAt hasks
        simp [glances, hasks, hasks']
      · intro place hplace
        obtain rfl : place = here := by simpa [glances, hasks] using hplace
        exact here_mem_glances t' aim ⟨links, place, name :: rest⟩

theorem walkLookups_subset (h : t.Extends t') (aim : Aim) (s : Standing) :
    t.walkLookups aim s ⊆ t'.walkLookups aim s := by
  induction s using advance_induction t aim with
  | ends s outcome hends =>
      rw [walkLookups_of_ends hends]
      exact List.Subset.trans (h.glances_subset aim s) (Tree.glances_subset t' aim s)
  | goes s next hgoes ih =>
      have hgoes' := advance_eq_goes_iff.2 (h.goes (advance_eq_goes_iff.1 hgoes))
      rw [walkLookups_of_goes hgoes, walkLookups_of_goes hgoes']
      exact List.append_subset.2 ⟨List.subset_append_of_subset_left _ (h.glances_subset aim s),
        List.subset_append_of_subset_right _ ih⟩

theorem locateLookups_subset (h : t.Extends t') (aim : Aim) (cwd : Location) (p : Path) :
    t.locateLookups aim cwd p ⊆ t'.locateLookups aim cwd p := by
  unfold locateLookups
  split
  · exact h.walkLookups_subset aim _
  · exact List.Subset.refl _

end Extends

/-! ### Walks for another purpose, or further on -/

theorem Asks.append (h : Asks aim name rest) (hmore : more ≠ []) (hslash : more ≠ [[]]) :
    Asks aim' name (rest ++ more) := by
  obtain ⟨hblank, hparent, -, hlong⟩ := h
  refine ⟨hblank, hparent, ?_, hlong⟩
  rintro ⟨-, hrest⟩
  rcases List.append_eq_singleton_iff.1 hrest with ⟨-, h⟩ | ⟨-, h⟩
  · exact hslash h
  · exact hmore h

/-- A walk goes the same way with more names to come. -/
theorem Goes.append {links left : ℕ} {next : Location} (h : t.Goes aim ⟨links, here, names⟩
    ⟨left, next, rest⟩) (hmore : more ≠ []) (hslash : more ≠ [[]]) :
    t.Goes aim' ⟨links, here, names ++ more⟩ ⟨left, next, rest ++ more⟩ := by
  cases h with
  | skip hdir hblank => exact .skip hdir hblank
  | parent hdir => exact .parent hdir
  | child hdir hasks hshape hlink => exact .child hdir (hasks.append hmore hslash) hshape hlink
  | @follow _ _ name names target hdir hasks hshape hlast =>
      have hgoes : t.Goes aim' ⟨left + 1, here, name :: (names ++ more)⟩
          ⟨left, targetOrigin target here, targetNames target ++ (names ++ more)⟩ :=
        .follow hdir (hasks.append hmore hslash) hshape (by simp [hmore])
      rwa [← List.append_assoc] at hgoes

/-- With more names to come a walk looks up no less, whatever it is for. -/
theorem walkLookups_append (t : Tree) (aim : Aim) (s : Standing) (hmore : more ≠ [])
    (hslash : more ≠ [[]]) :
    t.walkLookups aim s ⊆ t.walkLookups aim' ⟨s.links, s.here, s.names ++ more⟩ := by
  have hglances : ∀ s : Standing,
      t.glances aim s ⊆ t.glances aim' ⟨s.links, s.here, s.names ++ more⟩ := by
    rintro ⟨links, here, names⟩
    cases names with
    | nil =>
        intro place hplace
        obtain rfl : place = here := by simpa [glances] using hplace
        exact here_mem_glances t aim' ⟨links, place, [] ++ more⟩
    | cons name rest =>
        by_cases hasks : t.isDirectoryAt here ∧ Asks aim name rest
        · have hasks' : t.isDirectoryAt here ∧ Asks aim' name (rest ++ more) :=
            ⟨hasks.1, hasks.2.append hmore hslash⟩
          simp [glances, hasks, hasks']
        · intro place hplace
          obtain rfl : place = here := by simpa [glances, hasks] using hplace
          exact here_mem_glances t aim' ⟨links, place, name :: rest ++ more⟩
  induction s using advance_induction t aim with
  | ends s outcome hends =>
      rw [walkLookups_of_ends hends]
      exact List.Subset.trans (hglances s) (glances_subset t aim' _)
  | goes s next hgoes ih =>
      have hfurther : t.Goes aim' ⟨s.links, s.here, s.names ++ more⟩
          ⟨next.links, next.here, next.names ++ more⟩ :=
        (advance_eq_goes_iff.1 hgoes).append hmore hslash
      have hgoes' := advance_eq_goes_iff.2 hfurther
      rw [walkLookups_of_goes hgoes, walkLookups_of_goes hgoes']
      exact List.append_subset.2 ⟨List.subset_append_of_subset_left _ (hglances s),
        List.subset_append_of_subset_right _ ih⟩

/-- Only in the way of making a file the names to come matter to what is asked for. -/
theorem Asks.of_ne (h : Asks aim name rest) (haim : aim' ≠ .newFile) : Asks aim' name rest :=
  ⟨h.1, h.2.1, fun hnew => haim hnew.1, h.2.2.2⟩

theorem Goes.target (h : t.Goes aim s next) : t.Goes .target s next := by
  cases h with
  | skip hdir hblank => exact .skip hdir hblank
  | parent hdir => exact .parent hdir
  | child hdir hasks hshape hlink =>
      exact .child hdir (hasks.of_ne (by simp)) hshape hlink
  | follow hdir hasks hshape hlast =>
      exact .follow hdir (hasks.of_ne (by simp)) hshape (by simp)

/-- What is found in the way of making something is found by an access as well, unless it is a
link. -/
theorem Leads.target (h : t.Leads aim s place)
    (hlink : ∀ target, t.lookup place ≠ some (.link target)) : t.Leads .target s place := by
  induction h with
  | goes hgoes _ ih => exact .goes hgoes.target (ih hlink)
  | ends hends =>
      cases hends with
      | here => exact .ends .here
      | missing hdir hasks hshape =>
          exact .ends (.missing hdir (hasks.of_ne (by simp)) hshape)
      | link hdir hasks hshape haim => exact absurd (lookup_eq_link_iff.2 hshape) (hlink _)

/-- What an access comes to can also be asked for by its own name. -/
theorem Leads.exists_entry (h : t.Leads aim s place) : ∃ found, t.Leads .entry s found := by
  induction h with
  | ends hends =>
      cases hends with
      | here => exact ⟨_, .ends .here⟩
      | missing hdir hasks hshape => exact ⟨_, .ends (.missing hdir (hasks.of_ne (by simp)) hshape)⟩
      | link hdir hasks hshape => exact ⟨_, .ends (.link hdir (hasks.of_ne (by simp)) hshape rfl)⟩
  | goes hgoes _ ih =>
      obtain ⟨found, hfound⟩ := ih
      cases hgoes with
      | skip hdir hblank => exact ⟨found, .goes (.skip hdir hblank) hfound⟩
      | parent hdir => exact ⟨found, .goes (.parent hdir) hfound⟩
      | child hdir hasks hshape hlink =>
          exact ⟨found, .goes (.child hdir (hasks.of_ne (by simp)) hshape hlink) hfound⟩
      | @follow _ _ _ rest _ hdir hasks hshape _ =>
          by_cases hrest : rest = []
          · subst hrest
            exact ⟨_, .ends (.link hdir (hasks.of_ne (by simp)) hshape rfl)⟩
          · exact ⟨found, .goes (.follow hdir (hasks.of_ne (by simp)) hshape (by simp [hrest]))
              hfound⟩

/-! ### Locations that no link leads through -/

/-- A location that can be an entry's, at which and above which there is no link. -/
structure Linkless (t : Tree) (place : Location) : Prop where
  names : ∀ name ∈ place, IsEntryName name
  above : ∀ above, above <+: place → ∀ target, t.lookup above ≠ some (.link target)

namespace Linkless

theorem root : t.Linkless [] where
  names := by simp
  above := by
    intro above habove target
    rw [List.prefix_nil.1 habove]
    simp [lookup]

theorem of_prefix (h : t.Linkless place) (hbegins : here <+: place) : t.Linkless here where
  names := fun name hname => h.names name (hbegins.subset hname)
  above := fun above habove => h.above above (habove.trans hbegins)

theorem child (h : t.Linkless here) (hname : IsEntryName name)
    (hlink : ∀ target, t.lookup (here ++ [name]) ≠ some (.link target)) :
    t.Linkless (here ++ [name]) where
  names := by
    intro other hother
    rcases List.mem_append.1 hother with hother | hother
    · exact h.names other hother
    · rwa [List.mem_singleton.1 hother]
  above := by
    intro above habove
    rcases List.prefix_concat_iff.1 habove with rfl | habove
    · exact hlink
    · exact h.above above habove

theorem targetOrigin (h : t.Linkless here) (target : Text) :
    t.Linkless (targetOrigin target here) := by
  unfold Tree.targetOrigin
  split
  · exact root
  · exact h

theorem of_plain (h : t.Plain place) (hnamed : t.Named) : t.Linkless place := by
  induction h with
  | root => exact root
  | child _ _ _ hentry hlink ih =>
      refine ih.child (hnamed.isEntryName hentry) fun target hfound => ?_
      exact hlink target (Option.some.inj (hentry.symm.trans hfound))

end Linkless

theorem Extends.linkless (h : t.Extends t') (hplace : t.Linkless place) : t'.Linkless place where
  names := hplace.names
  above := fun above habove target hlink => hplace.above above habove target (h.links_eq hlink)

theorem Asks.isEntryName (h : Asks aim name rest) : IsEntryName name := by
  have hblank := h.1
  refine ⟨?_, h.2.1⟩
  simp_all [Path.isComponent]

theorem Goes.linkless (h : t.Goes aim s next) (hs : t.Linkless s.here) : t.Linkless next.here := by
  cases h with
  | skip => exact hs
  | parent => exact hs.of_prefix (List.dropLast_prefix _)
  | child _ hasks hshape hlink =>
      refine hs.child hasks.isEntryName fun target hfound => ?_
      exact hlink target (Option.some.inj (hshape.symm.trans (lookup_eq_link_iff.1 hfound)))
  | follow => exact hs.targetOrigin _

/-- A walk that does not stop at a link comes to no link. -/
theorem Leads.linkless (h : t.Leads aim s place) (hs : t.Linkless s.here) :
    t.Linkless place ∨ aim = .entry ∧ ∃ target, t.lookup place = some (.link target) := by
  induction h with
  | goes hgoes _ ih => exact ih (hgoes.linkless hs)
  | ends hends =>
      cases hends with
      | here => exact .inl hs
      | missing _ hasks hshape =>
          refine .inl (hs.child hasks.isEntryName fun target hfound => ?_)
          cases hshape.symm.trans (lookup_eq_link_iff.1 hfound)
      | link _ _ hshape haim => exact .inr ⟨haim, _, lookup_eq_link_iff.2 hshape⟩

end SolidityFlattener.Tree
