import SolidityFlattener.Proofs.Tree.Walks
import SolidityFlattener.Tree.Access

/-!
Canonical paths.

A location is plain if something other than a link stands at it and at every location above it.
The canonical path of what exists is that of a plain location, and a plain location is its own
canonical one. A circle of links gives no canonical path: a walk along the circle comes back to the
link it started at with fewer links left to follow, so it fails.
-/

namespace SolidityFlattener.Tree

variable {t : Tree} {here place link : Location} {name target : Text} {names rest more : List Text}
  {untried : List Location} {entry : Entry} {reach : Reach}

/-! ### Names of entries -/

def Named (t : Tree) : Prop := ∀ e ∈ t.entries, ∀ name ∈ e.1, IsEntryName name

theorem mem_entries_of_lookup (h : t.lookup place = some entry) (hne : place ≠ []) :
    (place, entry) ∈ t.entries := by
  rw [lookup, if_neg hne] at h
  obtain ⟨before, after, hsplit, -⟩ := List.lookup_eq_some_iff.1 h
  rw [hsplit]
  simp

theorem Named.isEntryName (hnamed : t.Named) (h : t.lookup (here ++ [name]) = some entry) :
    IsEntryName name :=
  hnamed _ (mem_entries_of_lookup h (by simp)) name (by simp)

theorem mem_links_of_lookup (h : t.lookup place = some (.link target)) (hne : place ≠ []) :
    place ∈ t.links :=
  List.mem_map.2 ⟨_, List.mem_filter.2 ⟨mem_entries_of_lookup h hne, rfl⟩, rfl⟩

/-! ### Plain locations -/

/-- A location that leads through no link. -/
inductive Plain (t : Tree) : Location → Prop
  | root : Plain t []
  | child {here : Location} {name : Text} {entry : Entry} :
      Plain t here → name ≠ ['.', '.'] → Char.ofNat 0 ∉ name →
        t.lookup (here ++ [name]) = some entry → (∀ target, entry ≠ .link target) →
          Plain t (here ++ [name])

theorem Plain.dropLast (h : t.Plain here) : t.Plain here.dropLast := by
  cases h with
  | root => exact .root
  | child h => simpa using h

theorem Plain.targetOrigin (h : t.Plain here) (target : Text) :
    t.Plain (targetOrigin target here) := by
  unfold Tree.targetOrigin
  split
  · exact .root
  · exact h

theorem Plain.lookup_ne_none (h : t.Plain place) : t.lookup place ≠ none := by
  cases h with
  | root => simp [lookup]
  | child _ _ _ hentry => simp [hentry]

/-- Names are taken below a plain location as they are below the root with that location in
front. -/
theorem Plain.canonical_append {strict : Bool} (h : t.Plain place) (untried : List Location)
    (rest : List Text) :
    t.canonical strict untried [] (place ++ rest) = t.canonical strict untried place rest := by
  induction h generalizing rest with
  | root => rfl
  | @child here name entry h hparent hnul hentry hlink ih =>
      rw [List.append_assoc, List.singleton_append, ih, canonical.eq_def]
      cases entry with
      | link target => exact absurd rfl (hlink target)
      | file content => simp [hparent, hnul, hentry]
      | directory => simp [hparent, hnul, hentry]

/-- The canonical path of a plain location is its own. -/
theorem Plain.realPath_ofLocation {strict : Bool} (h : t.Plain place) (cwd : Location) :
    t.realPath strict cwd (Path.ofLocation place) = .ok (Path.ofLocation place) := by
  have hcanonical : t.canonical strict t.links [] place = .ok (.place place) := by
    have happend : t.canonical strict t.links [] (place ++ []) =
        t.canonical strict t.links place [] := h.canonical_append t.links []
    rw [List.append_nil] at happend
    rw [happend, canonical]
  have horigin : (Path.ofLocation place).origin cwd = [] := rfl
  rw [realPath, horigin, show (Path.ofLocation place).parts = place from rfl, hcanonical]
  rfl

theorem Plain.reaches (h : t.Plain place) (hnamed : t.Named) (links : Nat) (rest : List Text) :
    t.Reaches ⟨links, [], place ++ rest⟩ ⟨links, place, rest⟩ := by
  induction h generalizing rest with
  | root => exact .refl t _
  | @child here name entry h hparent hnul hentry hlink ih =>
      rw [List.append_assoc]
      exact (ih _).trans (reaches_below _ _ (hnamed.isEntryName hentry) hentry hlink)

/-! ### What canonical locations are found by -/

/-- How far the links of existing names can be followed, step by step. -/
inductive Resolves (t : Tree) : List Location → Location → List Text → Reach → Prop
  | done {untried : List Location} {here : Location} : Resolves t untried here [] (.place here)
  | parent {untried : List Location} {here : Location} {rest : List Text} {reach : Reach} :
      Resolves t untried here.dropLast rest reach →
        Resolves t untried here (['.', '.'] :: rest) reach
  | child {untried : List Location} {here : Location} {name : Text} {rest : List Text}
      {reach : Reach} {entry : Entry} :
      name ≠ ['.', '.'] → Char.ofNat 0 ∉ name → t.lookup (here ++ [name]) = some entry →
        (∀ target, entry ≠ .link target) → Resolves t untried (here ++ [name]) rest reach →
          Resolves t untried here (name :: rest) reach
  | follow {untried : List Location} {here : Location} {name : Text} {rest : List Text}
      {reach : Reach} {target : Text} {reached : Location} :
      t.lookup (here ++ [name]) = some (.link target) →
        Resolves t (untried.erase (here ++ [name])) (Tree.targetOrigin target here)
          (linkNames target) (.place reached) →
          Resolves t untried reached rest reach → Resolves t untried here (name :: rest) reach
  | within {untried : List Location} {here : Location} {name : Text} {rest : List Text}
      {target : Text} {link : Location} {more : List Text} :
      t.lookup (here ++ [name]) = some (.link target) →
        Resolves t (untried.erase (here ++ [name])) (Tree.targetOrigin target here)
          (linkNames target) (.circle link more) →
          Resolves t untried here (name :: rest) (.circle link (more ++ rest))
  | back {untried : List Location} {here : Location} {name : Text} {rest : List Text}
      {target : Text} :
      t.lookup (here ++ [name]) = some (.link target) → here ++ [name] ∉ untried →
        Resolves t untried here (name :: rest) (.circle (here ++ [name]) rest)

theorem resolves_of_canonical (h : t.canonical true untried here names = .ok reach) :
    t.Resolves untried here names reach := by
  fun_induction canonical t true untried here names generalizing reach with
  | case1 => cases h; exact .done
  | case2 untried here rest ih => exact .parent (ih h)
  | case3 => cases h
  | case4 => cases h
  | case5 untried here name rest hparent hnul target hentry hmem link more hinner ih =>
      cases h
      exact .within hentry (ih hinner)
  | case6 untried here name rest hparent hnul target hentry hmem reached hinner ihinner ihrest =>
      exact .follow hentry (ihinner hinner) (ihrest h)
  | case7 untried here name rest hparent hnul target hentry hmem =>
      cases h
      exact .back hentry hmem
  | case8 untried here name rest hparent hnul entry hlink hentry ih =>
      exact .child hparent (by simpa using hnul) hentry hlink (ih h)
  | case9 => cases h
  | case10 _ _ _ _ _ _ _ hstrict => exact absurd rfl hstrict

/-- What a reach says of plain locations: the place reached is one, and what links back to itself is
a link below one. -/
def Reach.IsPlain (t : Tree) : Reach → Prop
  | .place place => t.Plain place
  | .circle link _ =>
    ∃ parent name target, link = parent ++ [name] ∧ t.Plain parent ∧
      t.lookup link = some (.link target)

theorem Resolves.isPlain (h : t.Resolves untried here names reach) (hplain : t.Plain here) :
    reach.IsPlain t := by
  induction h with
  | done => exact hplain
  | parent _ ih => exact ih hplain.dropLast
  | child hparent hnul hentry hlink _ ih => exact ih (.child hplain hparent hnul hentry hlink)
  | follow _ _ _ ihtarget ihrest => exact ihrest (ihtarget (hplain.targetOrigin _))
  | within _ _ ih => exact ih (hplain.targetOrigin _)
  | back hentry _ => exact ⟨_, _, _, rfl, hplain, hentry⟩

/-! ### Walks and circles -/

theorem filter_targetNames (target : Text) :
    (targetNames target).filter Path.isComponent = linkNames target := by
  have hne : ∀ names : List Text,
      (names.filter (· != [])).filter Path.isComponent = names.filter Path.isComponent := by
    intro names
    rw [List.filter_filter]
    refine List.filter_congr fun name _ => ?_
    by_cases hname : name = [] <;> simp [Path.isComponent, hname]
  unfold targetNames linkNames Path.components
  split
  · rw [List.filter_append, hne]
    simp [Path.isComponent]
  · exact hne _

/-- Where a walk stands that goes as far as a reach. -/
def Reach.Walked (t : Tree) (a : Standing) (rest : List Text) : Reach → Prop
  | .place place => ∃ left, t.Reaches a ⟨left, place, rest⟩
  | .circle link _ =>
    ∀ parent name, link = parent ++ [name] →
      ∃ left ahead, t.Reaches a ⟨left, parent, name :: ahead⟩

theorem Reach.Walked.of_reaches {a b : Standing} (hab : t.Reaches a b)
    (h : reach.Walked t b rest) : reach.Walked t a rest := by
  cases reach with
  | place place =>
      obtain ⟨left, h⟩ := h
      exact ⟨left, hab.trans h⟩
  | circle link more =>
      intro parent name hsplit
      obtain ⟨left, ahead, h⟩ := h parent name hsplit
      exact ⟨left, ahead, hab.trans h⟩

/-- A walk goes the same way as the search for a canonical location, whatever else it passes over
and whatever names come after. -/
theorem Resolves.walked (h : t.Resolves untried here names reach) (hnamed : t.Named)
    {written : List Text} (hwritten : written.filter Path.isComponent = names) (links : Nat)
    (rest : List Text) : reach.Walked t ⟨links, here, written ++ rest⟩ rest := by
  -- every case passes over what leads nowhere and then takes the step that its name asks for
  induction h generalizing written links rest with
  | done => exact ⟨links, reaches_skip (by simpa using hwritten)⟩
  | parent _ ih =>
      obtain ⟨after, hafter, hfirst⟩ := exists_reaches_first (t := t) hwritten
      exact ((ih hafter links rest).of_reaches reaches_parent).of_reaches (hfirst ..)
  | child hparent hnul hentry hlink _ ih =>
      obtain ⟨after, hafter, hfirst⟩ := exists_reaches_first (t := t) hwritten
      have hstep := reaches_below links (after ++ rest)
        (hnamed.isEntryName hentry) hentry hlink
      exact ((ih hafter links rest).of_reaches hstep).of_reaches (hfirst ..)
  | @follow untried here name names reach target reached hentry _ _ ihtarget ihrest =>
      obtain ⟨after, hafter, hfirst⟩ := exists_reaches_first (t := t) hwritten
      have hstep := reaches_target links (after ++ rest)
        (hnamed.isEntryName hentry) hentry
      obtain ⟨left, hleft⟩ := ihtarget (filter_targetNames target) (links - 1) (after ++ rest)
      exact (((ihrest hafter left rest).of_reaches hleft).of_reaches hstep).of_reaches (hfirst ..)
  | @within untried here name names target link more hentry _ ih =>
      obtain ⟨after, hafter, hfirst⟩ := exists_reaches_first (t := t) hwritten
      have hstep := reaches_target links (after ++ rest)
        (hnamed.isEntryName hentry) hentry
      have hinner := ih (filter_targetNames target) (links - 1) (after ++ rest)
      exact (hinner.of_reaches hstep).of_reaches (hfirst ..)
  | @back untried here name names target hentry _ =>
      obtain ⟨after, hafter, hfirst⟩ := exists_reaches_first (t := t) hwritten
      intro parent last hsplit
      obtain ⟨rfl, rfl⟩ : here = parent ∧ name = last := by simpa using hsplit
      exact ⟨links, after ++ rest, hfirst links here rest⟩

/-- No walk gets over a link. -/
def Doomed (t : Tree) (link : Location) : Prop :=
  ∀ links here name rest, link = here ++ [name] → t.Fails ⟨links, here, name :: rest⟩

/-- Nor does one get over a link whose own target leads back to it. -/
theorem doomed_of_resolves (hnamed : t.Named)
    (hentry : t.lookup (here ++ [name]) = some (.link target))
    (h : t.Resolves untried (Tree.targetOrigin target here) (linkNames target)
      (.circle (here ++ [name]) more)) : t.Doomed (here ++ [name]) := by
  intro links parent last rest hsplit
  obtain ⟨rfl, rfl⟩ : here = parent ∧ name = last := by simpa using hsplit
  -- each round along the circle comes back to the link with fewer links left to follow
  induction links using Nat.strongRecOn generalizing rest with
  | _ links ih =>
      rcases Nat.eq_zero_or_pos links with rfl | hpos
      · exact fails_of_no_links rest (hnamed.isEntryName hentry) hentry
      · have hstep := reaches_target links rest (hnamed.isEntryName hentry) hentry
        obtain ⟨left, ahead, hround⟩ :=
          h.walked hnamed (filter_targetNames target) (links - 1) rest here name rfl
        rcases hround with hfail | hround
        · exact hstep.fails hfail
        · have hless : left < links := by
            have := hround.1
            simp only at this
            omega
          exact (hstep.trans (.inr hround)).fails (ih left hless ahead)

/-- A link that leads back to itself is being followed, or no walk gets over it. -/
theorem Resolves.not_mem_or_doomed (h : t.Resolves untried here names reach) (hnamed : t.Named)
    (hreach : reach = .circle link more) : link ∉ untried ∨ t.Doomed link := by
  induction h generalizing link more with
  | done => cases hreach
  | parent _ ih => exact ih hreach
  | child _ _ _ _ _ ih => exact ih hreach
  | follow _ _ _ _ ih => exact ih hreach
  | @within untried here name names target other ahead hentry hinner ih =>
      cases hreach
      -- the link is being followed from further out, or it is the one entered here
      by_cases heq : other = here ++ [name]
      · subst heq
        exact .inr (doomed_of_resolves hnamed hentry hinner)
      · exact (ih rfl).imp_left fun hmem hnot => hmem ((List.mem_erase_of_ne heq).2 hnot)
  | back hentry hmem =>
      cases hreach
      exact .inl hmem

/-- What a plain location's path leads to stands at that location. -/
theorem Plain.eq_of_locate (h : t.Plain place) (hnamed : t.Named) {cwd found : Location}
    (hfound : t.locate .target cwd (Path.ofLocation place) = .ok found) : found = place := by
  have hreaches := h.reaches hnamed linkLimit []
  rw [List.append_nil] at hreaches
  unfold locate at hfound
  split_ifs at hfound
  have hend := hreaches.outcome_eq_ok hfound
  simp only [outcome] at hend
  rw [walk] at hend
  exact (Except.ok.inj hend).symm

/-- The system refuses a path that goes in a circle of links. -/
theorem circleFault_ne_none (hnamed : t.Named) (hplain : t.Plain here)
    (h : t.Resolves t.links here names (.circle link more)) :
    t.circleFault (Path.ofLocation link) ≠ none := by
  obtain ⟨parent, name, target, rfl, hparent, hentry⟩ := h.isPlain hplain
  have hdoomed : t.Doomed (parent ++ [name]) :=
    (h.not_mem_or_doomed hnamed rfl).resolve_left fun hnot =>
      hnot (mem_links_of_lookup hentry (by simp))
  have hreaches := hparent.reaches hnamed linkLimit [name]
  obtain ⟨fault, hfault⟩ := hreaches.fails (hdoomed _ _ _ _ rfl)
  have hwalk : t.walk .target linkLimit [] (parent ++ [name]) = .error fault := hfault
  have horigin : (Path.ofLocation (parent ++ [name])).origin [] = [] := rfl
  have hparts : (Path.ofLocation (parent ++ [name])).parts = parent ++ [name] := rfl
  unfold circleFault locate
  rw [horigin, hparts, hwalk]
  split_ifs <;> grind

theorem nul_not_mem_of_canonical {strict : Bool} {untried : List Location}
    (h : t.canonical strict untried here names = .ok (.place place)) :
    ∀ name ∈ names, Char.ofNat 0 ∉ name := by
  fun_induction canonical t strict untried here names with
  | case1 => simp
  | case2 untried here rest ih => exact List.forall_mem_cons.2 ⟨by decide, ih h⟩
  | case3 | case4 | case5 | case7 | case9 => cases h
  | case6 untried here name rest hparent hnul target hentry hmem reached hinner ihinner ihrest =>
      exact List.forall_mem_cons.2 ⟨by simpa using hnul, ihrest h⟩
  | case8 untried here name rest hparent hnul entry hlink hentry ih =>
      exact List.forall_mem_cons.2 ⟨by simpa using hnul, ih h⟩
  | case10 untried here name rest hparent hnul hentry hstrict ih =>
      exact List.forall_mem_cons.2 ⟨by simpa using hnul, ih h⟩

/-- What exists is found by following its links to their end. -/
theorem canonical_of_realPath (hnamed : t.Named) (cwd : Location) {p q : Path}
    (horigin : t.Plain (p.origin cwd)) (h : t.realPath true cwd p = .ok q) :
    ∃ place, q = Path.ofLocation place ∧
      t.canonical true t.links (p.origin cwd) p.parts = .ok (.place place) := by
  unfold realPath at h
  cases hreach : t.canonical true t.links (p.origin cwd) p.parts with
  | error fault =>
      rw [hreach] at h
      cases h
  | ok reach =>
      rw [hreach] at h
      cases reach with
      | place place =>
          cases h
          exact ⟨place, rfl, rfl⟩
      | circle link more =>
          -- a circle that the search comes back from is one that the system refuses
          obtain ⟨fault, hfault⟩ := Option.ne_none_iff_exists'.1
            (circleFault_ne_none hnamed horigin (resolves_of_canonical hreach))
          simp [bind, Except.bind, hfault] at h

/-- The canonical path of what exists is the path of a plain location. -/
theorem exists_plain_of_realPath (hnamed : t.Named) (cwd : Location) {p q : Path}
    (horigin : t.Plain (p.origin cwd)) (h : t.realPath true cwd p = .ok q) :
    ∃ place, q = Path.ofLocation place ∧ t.Plain place := by
  obtain ⟨place, rfl, hreach⟩ := canonical_of_realPath hnamed cwd horigin h
  exact ⟨place, rfl, (resolves_of_canonical hreach).isPlain horigin⟩

end SolidityFlattener.Tree
