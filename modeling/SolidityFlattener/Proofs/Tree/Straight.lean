import SolidityFlattener.Proofs.Path
import SolidityFlattener.Proofs.Tree.Making

/-!
Ways without links.

Where a walk meets no link it goes straight: each name leads to the location below, and `..` to the
one above, so where it ends can be told from the names alone. In a tree without links all walks are
of this kind, and a canonical path that need not exist is the same for all such trees.
-/

namespace SolidityFlattener.Tree

variable {t t' : Tree} {cwd here place above : Location} {names front back : List Text}
  {name : Text} {aim : Aim} {s next : Standing} {p : Path} {strict : Bool}
  {untried : List Location}

/-- Where a name leads if it is no link's. -/
def stepTo (here : Location) (name : Text) : Location :=
  if name = [] ∨ name = ['.'] then here
  else if name = ['.', '.'] then here.dropLast
  else here ++ [name]

/-- Where names lead one after another if none is a link's. -/
def straight (here : Location) (names : List Text) : Location := names.foldl stepTo here

theorem straight_cons (here : Location) (name : Text) (names : List Text) :
    straight here (name :: names) = straight (stepTo here name) names := rfl

theorem straight_append (here : Location) (front back : List Text) :
    straight here (front ++ back) = straight (straight here front) back :=
  List.foldl_append

theorem stepTo_of_isEntryName (h : IsEntryName name) (here : Location) :
    stepTo here name = here ++ [name] := by
  rw [stepTo, if_neg h.not_blank, if_neg h.2]

theorem straight_of_isEntryName (h : ∀ name ∈ names, IsEntryName name) (here : Location) :
    straight here names = here ++ names := by
  induction names generalizing here with
  | nil => exact (List.append_nil here).symm
  | cons name rest ih =>
      obtain ⟨hname, hrest⟩ := List.forall_mem_cons.1 h
      rw [straight_cons, stepTo_of_isEntryName hname, ih hrest, List.append_assoc]
      rfl

/-! ### Walks that meet no link -/

/-- Locations at which there is no link. -/
def NoLinkAt (t : Tree) (places : List Location) : Prop :=
  ∀ place ∈ places, ∀ target, t.lookup place ≠ some (.link target)

theorem Goes.straight_eq (h : t.Goes aim s next) (hlinks : t.NoLinkAt (t.glances aim s)) :
    straight next.here next.names = straight s.here s.names := by
  cases h with
  | skip _ hblank => rw [straight_cons, stepTo, if_pos hblank]
  | parent _ => rfl
  | child _ hasks _ _ => rw [straight_cons, stepTo_of_isEntryName hasks.isEntryName]
  | @follow left here name rest target hdir hasks hshape _ =>
      have hglance : here ++ [name] ∈ t.glances aim ⟨left + 1, here, name :: rest⟩ := by
        simp [glances, hdir, hasks]
      exact absurd (lookup_eq_link_iff.2 hshape) (hlinks _ hglance target)

theorem Leads.eq_straight (h : t.Leads aim s place) (hlinks : t.NoLinkAt (t.walkLookups aim s)) :
    place = straight s.here s.names := by
  induction h with
  | ends hends =>
      cases hends with
      | here => rfl
      | missing _ hasks _ => exact (stepTo_of_isEntryName hasks.isEntryName _).symm
      | link _ hasks _ _ => exact (stepTo_of_isEntryName hasks.isEntryName _).symm
  | goes hgoes _ ih =>
      rw [walkLookups_of_goes (advance_eq_goes_iff.2 hgoes)] at hlinks
      obtain ⟨hglances, hrest⟩ := List.forall_mem_append.1 hlinks
      rw [ih hrest, hgoes.straight_eq hglances]

/-- A path on whose way there is no link leads where its names lead. -/
theorem eq_straight_of_locate (h : t.locate aim cwd p = .ok place)
    (hlinks : t.NoLinkAt (t.locateLookups aim cwd p)) :
    place = straight (p.origin cwd) p.parts := by
  obtain ⟨hask, hleads⟩ := locate_eq_ok_iff.1 h
  rw [locateLookups_of_askable hask] at hlinks
  exact hleads.eq_straight hlinks

/-! ### Part of a way -/

theorem Asks.of_append (h : Asks aim name (front ++ back)) : Asks .target name front :=
  ⟨h.1, h.2.1, by simp, h.2.2.2⟩

/-- A walk with more names to come leads to a directory before it takes them. -/
theorem Leads.split (h : t.Leads aim s place) (hnames : s.names = front ++ back)
    (hback : back ≠ []) :
    ∃ middle left, t.Leads .target ⟨s.links, s.here, front⟩ middle ∧
      t.Leads aim ⟨left, middle, back⟩ place := by
  induction h generalizing front with
  | @ends s place hends =>
      cases front with
      | nil =>
          obtain ⟨links, here, _⟩ := s
          obtain rfl := hnames
          exact ⟨here, links, .ends .here, .ends hends⟩
      | cons name front =>
          cases hends with
          | here => cases hnames
          | missing => simp_all
          | link => simp_all
  | @goes s next place hgoes hleads ih =>
      cases front with
      | nil =>
          obtain ⟨links, here, _⟩ := s
          obtain rfl := hnames
          exact ⟨here, links, .ends .here, .goes hgoes hleads⟩
      | cons name front =>
          cases hgoes with
          | skip hdir hblank =>
              obtain ⟨rfl, rfl⟩ := List.cons_eq_cons.1 hnames
              obtain ⟨middle, left, hfront, hrest⟩ := ih rfl
              exact ⟨middle, left, .goes (.skip hdir hblank) hfront, hrest⟩
          | parent hdir =>
              obtain ⟨rfl, rfl⟩ := List.cons_eq_cons.1 hnames
              obtain ⟨middle, left, hfront, hrest⟩ := ih rfl
              exact ⟨middle, left, .goes (.parent hdir) hfront, hrest⟩
          | child hdir hasks hshape hlink =>
              obtain ⟨rfl, rfl⟩ := List.cons_eq_cons.1 hnames
              obtain ⟨middle, left, hfront, hrest⟩ := ih rfl
              exact ⟨middle, left, .goes (.child hdir hasks.of_append hshape hlink) hfront, hrest⟩
          | follow hdir hasks hshape hlast =>
              obtain ⟨rfl, rfl⟩ := List.cons_eq_cons.1 hnames
              obtain ⟨middle, left, hfront, hrest⟩ := ih (List.append_assoc _ _ _).symm
              exact ⟨middle, left, .goes (.follow hdir hasks.of_append hshape (by simp)) hfront,
                hrest⟩

theorem Leads.isDirectoryAt (h : t.Leads aim s place) (hne : s.names ≠ []) :
    t.isDirectoryAt s.here := by
  cases h with
  | ends hends =>
      cases hends with
      | here => exact absurd rfl hne
      | missing hdir => exact hdir
      | link hdir => exact hdir
  | goes hgoes =>
      cases hgoes with
      | skip hdir => exact hdir
      | parent hdir => exact hdir
      | child hdir => exact hdir
      | follow hdir => exact hdir

theorem utf8Size_append (a b : Text) :
    Text.utf8Size (a ++ b) = Text.utf8Size a + Text.utf8Size b := by
  have hfrom : ∀ (t : Text) (size : ℕ),
      t.foldl (fun size c => size + c.utf8Size) size = size + Text.utf8Size t := by
    intro t
    induction t with
    | nil => exact fun size => rfl
    | cons c t ih =>
        intro size
        rw [Text.utf8Size, List.foldl_cons, List.foldl_cons, ih, ih (0 + c.utf8Size)]
        omega
  rw [Text.utf8Size, List.foldl_append, hfrom]
  rfl

theorem text_prefix {anchor : Anchor} (hhere : (⟨anchor, front⟩ : Path) ≠ Path.here) :
    (⟨anchor, front⟩ : Path).text <+: (⟨anchor, front ++ back⟩ : Path).text := by
  have hhere' : (⟨anchor, front ++ back⟩ : Path) ≠ Path.here := by
    intro heq
    simp only [Path.here, Path.mk.injEq, List.append_eq_nil_iff] at heq
    exact hhere (by rw [heq.1, heq.2.1]; rfl)
  rw [Path.text, if_neg hhere, Path.text, if_neg hhere']
  exact List.prefix_append_right_inj _ |>.2 (Text.intercalate_prefix_append _ _ _)

/-- What leads to a path can be asked for if the path can. -/
theorem Askable.of_append {anchor : Anchor} (h : Askable ⟨anchor, front ++ back⟩) :
    Askable ⟨anchor, front⟩ := by
  by_cases hhere : (⟨anchor, front⟩ : Path) = Path.here
  · rw [hhere]
    decide
  · obtain ⟨rest, hrest⟩ :
        (⟨anchor, front⟩ : Path).text <+: (⟨anchor, front ++ back⟩ : Path).text := text_prefix hhere
    obtain ⟨hnul, hlong⟩ := h
    rw [← hrest] at hnul hlong
    rw [utf8Size_append] at hlong
    exact ⟨fun hmem => hnul (List.mem_append_left _ hmem), by omega⟩

/-- On the way of a path there are directories. -/
theorem exists_locate_above {anchor : Anchor}
    (h : t.locate aim cwd ⟨anchor, front ++ back⟩ = .ok place) (hback : back ≠ []) :
    ∃ middle, t.locate .target cwd ⟨anchor, front⟩ = .ok middle ∧ t.isDirectoryAt middle := by
  obtain ⟨hask, hleads⟩ := locate_eq_ok_iff.1 h
  obtain ⟨middle, left, hfront, hrest⟩ := hleads.split rfl hback
  exact ⟨middle, locate_eq_ok_iff.2 ⟨hask.of_append, hfront⟩, hrest.isDirectoryAt hback⟩

theorem isDirectoryAt_iff : t.isDirectoryAt place ↔ t.lookup place = some .directory := by
  unfold isDirectoryAt
  cases t.lookup place with
  | none => simp
  | some entry => cases entry <;> simp

theorem isDirectory_eq_ok_true_iff :
    t.isDirectory cwd p = .ok true ↔
      ∃ place, t.locate .target cwd p = .ok place ∧ t.isDirectoryAt place := by
  unfold isDirectory asks find
  cases t.locate .target cwd p with
  | error fault => cases fault <;> simp [bind, Except.bind]
  | ok place =>
      simp only [bind, Except.bind, isDirectoryAt_iff, Except.ok.injEq, exists_eq_left']
      cases t.lookup place with
      | none => simp
      | some entry => cases entry <;> simp

/-- A directory that is there can be made again. -/
theorem exists_makeDirectories (h : t.isDirectory cwd p = .ok true) :
    ∃ made, t.makeDirectories cwd p true = (made, .ok ()) := by
  obtain ⟨anchor, parts⟩ := p
  obtain ⟨made, hmade⟩ : ∃ made, t.makeOne cwd ⟨anchor, parts⟩ = .ok made := by
    obtain ⟨place, hlocate, -⟩ := isDirectory_eq_ok_true_iff.1 h
    obtain ⟨hask, hleads⟩ := locate_eq_ok_iff.1 hlocate
    obtain ⟨found, hfound⟩ := hleads.exists_entry
    have hentry : t.locate .entry cwd ⟨anchor, parts⟩ = .ok found :=
      locate_eq_ok_iff.2 ⟨hask, hfound⟩
    unfold makeOne makeDirectory
    rw [hentry]
    cases hlookup : t.lookup found with
    | none => exact ⟨_, by simp [hlookup, bind, Except.bind]; rfl⟩
    | some entry => exact ⟨t, by simp [hlookup, h, bind, Except.bind, Fault.isOfText]⟩
  refine ⟨made, ?_⟩
  simp only [makeDirectories, if_true]
  obtain rfl | ⟨above, name, rfl⟩ := parts.eq_nil_or_concat
  · rw [List.reverse_nil, makeAll, hmade]
  · rw [List.concat_eq_append] at hmade ⊢
    rw [List.reverse_append, List.reverse_singleton, List.singleton_append, makeAll]
    simp only [List.reverse_cons, List.reverse_reverse, hmade]

/-! ### Trees without links -/

/-- No link stands anywhere. -/
def LinkFree (t : Tree) : Prop := ∀ place target, t.lookup place ≠ some (.link target)

theorem linkFree_of_links_eq_nil (h : t.links = []) : t.LinkFree := by
  intro place target hlink
  have hne : place ≠ [] := by
    rintro rfl
    simp [lookup] at hlink
  have hmem := mem_links_of_lookup hlink hne
  simp [h] at hmem

theorem LinkFree.noLinkAt (h : t.LinkFree) (places : List Location) : t.NoLinkAt places :=
  fun place _ => h place

theorem LinkFree.of_extends (h : t.LinkFree) (hextends : t.Extends t') : t'.LinkFree :=
  fun place target hlink => h place target (hextends.links_eq hlink)

theorem LinkFree.eq_straight (h : t.LinkFree) (hlocate : t.locate aim cwd p = .ok place) :
    place = straight (p.origin cwd) p.parts :=
  eq_straight_of_locate hlocate (h.noLinkAt _)

/-- Without links, the way to a location is that location and those above it. -/
theorem LinkFree.prefix_of_mem_walkLookups (h : t.LinkFree)
    (hnames : ∀ name ∈ s.names, IsEntryName name) (hplace : place ∈ t.walkLookups aim s) :
    place <+: s.here ++ s.names := by
  have hglances : ∀ s : Standing, (∀ place ∈ t.glances aim s, place <+: s.here ++ s.names) := by
    rintro ⟨links, here, names⟩ place hplace
    cases names with
    | nil =>
        obtain rfl : place = here := by simpa [glances] using hplace
        exact List.prefix_append _ _
    | cons name rest =>
        simp only [glances] at hplace
        split at hplace
        · rcases List.mem_pair.1 hplace with rfl | rfl
          · exact List.prefix_append _ _
          · exact ⟨rest, by simp⟩
        · obtain rfl := List.mem_singleton.1 hplace
          exact List.prefix_append _ _
  induction s using advance_induction t aim with
  | ends s outcome hends =>
      rw [walkLookups_of_ends hends] at hplace
      exact hglances s place hplace
  | goes s next hgoes ih =>
      rw [walkLookups_of_goes hgoes, List.mem_append] at hplace
      rcases hplace with hplace | hplace
      · exact hglances s place hplace
      · cases advance_eq_goes_iff.1 hgoes with
        | skip _ hblank =>
            exact absurd hblank (hnames _ List.mem_cons_self).not_blank
        | parent => exact absurd rfl (hnames _ List.mem_cons_self).2
        | child =>
            have hrest := ih (fun name hname => hnames name (List.mem_cons_of_mem _ hname)) hplace
            simpa using hrest
        | follow _ _ hshape _ => exact absurd (lookup_eq_link_iff.2 hshape) (h _ _)

theorem LinkFree.prefix_of_mem_locateLookups (h : t.LinkFree)
    (hnames : ∀ name ∈ here, IsEntryName name)
    (hplace : place ∈ t.locateLookups aim cwd (.ofLocation here)) : place <+: here := by
  unfold locateLookups at hplace
  split at hplace
  · exact h.prefix_of_mem_walkLookups hnames hplace
  · simp at hplace

/-- The search for a canonical path goes no other way. -/
theorem LinkFree.prefix_of_mem_canonicalLookups (h : t.LinkFree)
    (hnames : ∀ name ∈ names, IsEntryName name)
    (hplace : place ∈ t.canonicalLookups strict untried here names) : place <+: here ++ names := by
  induction names generalizing here with
  | nil => simp [canonicalLookups] at hplace
  | cons name rest ih =>
      obtain ⟨hname, hrest⟩ := List.forall_mem_cons.1 hnames
      have hbelow : place ∈ t.canonicalLookups strict untried (here ++ [name]) rest →
          place <+: here ++ name :: rest := by
        intro hplace
        simpa using ih hrest hplace
      rw [canonicalLookups, if_neg hname.2] at hplace
      split at hplace
      · simp at hplace
      · rcases List.mem_cons.1 hplace with rfl | hplace
        · exact ⟨rest, by simp⟩
        · split at hplace
          · next target hlink => exact absurd hlink (h _ target)
          · exact hbelow hplace
          · split at hplace
            · obtain rfl := List.mem_singleton.1 hplace
              exact List.prefix_append _ _
            · exact hbelow hplace

theorem LinkFree.canonical_cons (h : t.LinkFree) (strict : Bool) (untried : List Location)
    (here : Location) (name : Text) (rest : List Text) :
    t.canonical strict untried here (name :: rest) =
      if name = ['.', '.'] then t.canonical strict untried here.dropLast rest
      else if name.contains (Char.ofNat 0) then .error (.ofNul name)
      else if strict ∧ t.lookup (here ++ [name]) = none then .error (t.absence here name)
      else t.canonical strict untried (here ++ [name]) rest := by
  rw [canonical]
  cases hlookup : t.lookup (here ++ [name]) with
  | none => simp
  | some entry =>
      cases entry with
      | file content => simp
      | directory => simp
      | link target => exact absurd hlookup (h _ target)

/-- Without links nothing is a circle of them. -/
theorem LinkFree.exists_place_of_canonical (h : t.LinkFree) {reach : Reach}
    (hreach : t.canonical strict untried here names = .ok reach) :
    ∃ place, reach = .place place := by
  induction names generalizing here with
  | nil =>
      rw [canonical] at hreach
      exact ⟨here, (Except.ok.inj hreach).symm⟩
  | cons name rest ih =>
      rw [h.canonical_cons] at hreach
      split_ifs at hreach
      · exact ih hreach
      · exact ih hreach

theorem LinkFree.prefix_of_mem_realPathLookups (h : t.LinkFree)
    (hnames : ∀ name ∈ here, IsEntryName name)
    (hplace : place ∈ t.realPathLookups strict cwd (.ofLocation here)) : place <+: here := by
  rcases List.mem_append.1 hplace with hplace | hplace
  · exact h.prefix_of_mem_canonicalLookups hnames hplace
  · split at hplace
    · next hreach =>
      obtain ⟨found, hfound⟩ := h.exists_place_of_canonical hreach
      cases hfound
    · simp at hplace

/-- Where nothing needs to exist, canonical paths are the same in all trees without links. -/
theorem LinkFree.canonical_false_eq (h : t.LinkFree) (h' : t'.LinkFree)
    (untried untried' : List Location) (here : Location) (names : List Text) :
    t'.canonical false untried' here names = t.canonical false untried here names := by
  induction names generalizing here with
  | nil => rw [canonical, canonical]
  | cons name rest ih => simp only [h.canonical_cons, h'.canonical_cons, Bool.false_eq_true,
      false_and, if_false, ih]

theorem LinkFree.realPath_false_eq (h : t.LinkFree) (h' : t'.LinkFree) (cwd : Location)
    (p : Path) : t'.realPath false cwd p = t.realPath false cwd p := by
  unfold realPath
  rw [h.canonical_false_eq h' t.links]
  cases hreach : t.canonical false t.links (p.origin cwd) p.parts with
  | error fault => rfl
  | ok reach =>
      obtain ⟨found, rfl⟩ := h.exists_place_of_canonical hreach
      rfl

theorem LinkFree.canonical_false_eq_straight (h : t.LinkFree)
    (hnames : ∀ name ∈ names, Path.isComponent name ∧ Char.ofNat 0 ∉ name) (here : Location) :
    t.canonical false untried here names = .ok (.place (straight here names)) := by
  induction names generalizing here with
  | nil => rw [canonical]; rfl
  | cons name rest ih =>
      obtain ⟨⟨hcomponent, hnul⟩, hrest⟩ := List.forall_mem_cons.1 hnames
      rw [h.canonical_cons, ih hrest, ih hrest, straight_cons]
      by_cases hparent : name = ['.', '.']
      · subst hparent
        rfl
      · have hcontains : name.contains (Char.ofNat 0) = false := by simpa using hnul
        rw [stepTo_of_isEntryName ⟨hcomponent, hparent⟩, if_neg hparent, hcontains]
        simp

/-- Without links, what can be walked to has the location that the walk comes to for its canonical
path. -/
theorem LinkFree.realPath_of_locate (h : t.LinkFree) (htidy : p.Tidy)
    (hlocate : t.locate .target cwd p = .ok place) :
    t.realPath false cwd p = .ok (.ofLocation place) := by
  obtain rfl := h.eq_straight hlocate
  obtain ⟨⟨hnul, -⟩, -⟩ := locate_eq_ok_iff.1 hlocate
  have hnames : ∀ name ∈ p.parts, Path.isComponent name ∧ Char.ofNat 0 ∉ name :=
    fun name hname => ⟨htidy name hname, fun hmem => hnul (Path.subset_text hname hmem)⟩
  rw [realPath, h.canonical_false_eq_straight hnames]
  rfl

/-! ### Directories that can be entered -/

/-- A location that is a directory, and so are all above it. -/
def Enterable (t : Tree) (place : Location) : Prop :=
  ∀ above, above <+: place → t.isDirectoryAt above

theorem LinkFree.enterable_of_isDirectory (h : t.LinkFree)
    (hnames : ∀ name ∈ place, IsEntryName name)
    (hdir : t.isDirectory cwd (.ofLocation place) = .ok true) : t.Enterable place := by
  obtain ⟨found, hfound, hplace⟩ := isDirectory_eq_ok_true_iff.1 hdir
  -- without links each location on the way is reached by its own names
  have hstraight : ∀ {above found}, above <+: place →
      t.locate .target cwd (.ofLocation above) = .ok found → found = above := by
    intro above found habove hfound
    rw [h.eq_straight hfound]
    exact straight_of_isEntryName (fun name hname => hnames name (habove.subset hname)) []
  intro above habove
  obtain ⟨back, rfl⟩ := id habove
  by_cases hback : back = []
  · subst hback
    rw [List.append_nil] at hfound hnames habove hstraight
    exact hstraight habove hfound ▸ hplace
  · obtain ⟨middle, hmiddle, hdir⟩ := exists_locate_above hfound hback
    exact hstraight habove hmiddle ▸ hdir

/-- A directory that can be entered has an entry for itself and one for each directory above it,
the root apart. -/
theorem Enterable.length_le (h : t.Enterable place) : place.length ≤ t.entries.length := by
  let above := (List.range place.length).map fun n => place.take (n + 1)
  have hnodup : above.Nodup := by
    refine List.Nodup.map_on ?_ List.nodup_range
    intro m hm n hn heq
    have := congrArg List.length heq
    simp only [List.length_take, List.mem_range] at this hm hn
    omega
  have hsubset : above ⊆ t.entries.map Prod.fst := by
    intro other hother
    obtain ⟨n, hn, rfl⟩ := List.mem_map.1 hother
    have hlookup := isDirectoryAt_iff.1 (h _ (List.take_prefix (n + 1) place))
    have hne : place.take (n + 1) ≠ [] := by
      rw [Ne, List.take_eq_nil_iff]
      rintro (h | rfl)
      · omega
      · simp at hn
    exact List.mem_map.2 ⟨_, mem_entries_of_lookup hlookup hne, rfl⟩
  simpa [above] using (hnodup.subperm hsubset).length_le

end SolidityFlattener.Tree
