import SolidityFlattener.Proofs.Outcomes
import SolidityFlattener.Proofs.Path
import SolidityFlattener.Proofs.Tree.Canonical

/-!
What is there has a canonical path.

The search for a canonical path and the walk of an access take the same names in the same turn, so
where the search finds nothing the walk goes astray: it fails, or ends where nothing stands. With
that a file that an access finds has a canonical path, and looking for a file can fail in one way
only, by a name that is too long. A canonical path holds no null character, so reading by it is
never refused for one.
-/

namespace SolidityFlattener.Tree

variable {t : Tree} {cwd here place : Location} {name target : Text} {names rest : List Text}
  {untried : List Location} {entry : Entry} {reach : Reach} {fault : Fault} {p : Path}

/-- No entry has a name with the null character in it. -/
def NulFree (t : Tree) : Prop := ∀ e ∈ t.entries, ∀ name ∈ e.1, Char.ofNat 0 ∉ name

theorem NulFree.lookup_eq_none (hnulfree : t.NulFree) (hnul : Char.ofNat 0 ∈ name) :
    t.lookup (here ++ [name]) = none := by
  by_contra hne
  obtain ⟨entry, hentry⟩ := Option.ne_none_iff_exists'.1 hne
  exact hnulfree _ (mem_entries_of_lookup hentry (by simp)) name (by simp) hnul

/-! ### Walks that get nowhere -/

/-- A walk that fails or ends where nothing stands. -/
def Astray (t : Tree) (a : Standing) : Prop :=
  ∀ place, t.outcome a = .ok place → t.lookup place = none

theorem Astray.of_reaches {a b : Standing} (hab : t.Reaches a b) (h : t.Astray b) : t.Astray a :=
  fun place hplace => h place (hab.outcome_eq_ok hplace)

theorem Fails.astray {a : Standing} (h : t.Fails a) : t.Astray a := by
  obtain ⟨fault, hfault⟩ := h
  intro place hplace
  cases hfault.symm.trans hplace

/-- Where a name stands for nothing, the walk ends there or fails. -/
theorem astray_of_lookup_eq_none (links : ℕ) (rest : List Text) (hname : IsEntryName name)
    (hnone : t.lookup (here ++ [name]) = none) : t.Astray ⟨links, here, name :: rest⟩ := by
  intro place hplace
  simp only [outcome_cons, hname.not_blank, hname.2, if_false, hnone] at hplace
  split_ifs at hplace
  obtain rfl : here ++ [name] = place := Except.ok.inj hplace
  exact hnone

theorem isEntryName_of_filter {written : List Text}
    (hwritten : written.filter Path.isComponent = name :: names) (hparent : name ≠ ['.', '.']) :
    IsEntryName name := by
  have hmem : name ∈ written.filter Path.isComponent := by simp [hwritten]
  exact ⟨(List.mem_filter.1 hmem).2, hparent⟩

/-- A walk goes astray wherever the search for a canonical location ends with a fault. -/
theorem astray_of_canonical (hnamed : t.Named) (hnulfree : t.NulFree)
    (h : t.canonical true untried here names = .error fault) {written : List Text}
    (hwritten : written.filter Path.isComponent = names) (links : ℕ) (rest : List Text) :
    t.Astray ⟨links, here, written ++ rest⟩ := by
  -- a fault where nothing stands is where the walk stops too; one from further on is met further on
  fun_induction canonical t true untried here names generalizing written links rest with
  | case1 => cases h
  | case2 untried here names ih =>
      obtain ⟨after, hafter, hfirst⟩ := exists_reaches_first (t := t) hwritten
      exact ((ih h hafter links rest).of_reaches reaches_parent).of_reaches (hfirst ..)
  | case3 untried here name names hparent hnul =>
      obtain ⟨after, hafter, hfirst⟩ := exists_reaches_first (t := t) hwritten
      have hname := isEntryName_of_filter hwritten hparent
      have hnone : t.lookup (here ++ [name]) = none := hnulfree.lookup_eq_none (by simpa using hnul)
      exact (astray_of_lookup_eq_none links _ hname hnone).of_reaches (hfirst ..)
  | case4 untried here name names hparent hnul target hentry hmem e hinner ih =>
      obtain ⟨after, hafter, hfirst⟩ := exists_reaches_first (t := t) hwritten
      have hstep := reaches_target links (after ++ rest) (hnamed.isEntryName hentry) hentry
      obtain rfl : e = fault := Except.error.inj h
      have hastray := ih hinner (filter_targetNames target) (links - 1) (after ++ rest)
      exact (hastray.of_reaches hstep).of_reaches (hfirst ..)
  | case5 untried here name names hparent hnul target hentry hmem link more hinner ih => cases h
  | case6 untried here name names hparent hnul target hentry hmem reached hinner ihinner ihrest =>
      obtain ⟨after, hafter, hfirst⟩ := exists_reaches_first (t := t) hwritten
      have hstep := reaches_target links (after ++ rest) (hnamed.isEntryName hentry) hentry
      obtain ⟨left, hleft⟩ := (resolves_of_canonical hinner).walked hnamed
        (filter_targetNames target) (links - 1) (after ++ rest)
      exact (((ihrest h hafter left rest).of_reaches hleft).of_reaches hstep).of_reaches (hfirst ..)
  | case7 untried here name names hparent hnul target hentry hmem => cases h
  | case8 untried here name names hparent hnul entry hlink hentry ih =>
      obtain ⟨after, hafter, hfirst⟩ := exists_reaches_first (t := t) hwritten
      have hstep := reaches_below links (after ++ rest) (hnamed.isEntryName hentry) hentry hlink
      exact ((ih h hafter links rest).of_reaches hstep).of_reaches (hfirst ..)
  | case9 untried here name names hparent hnul hnone =>
      obtain ⟨after, hafter, hfirst⟩ := exists_reaches_first (t := t) hwritten
      have hname := isEntryName_of_filter hwritten hparent
      exact (astray_of_lookup_eq_none links _ hname hnone).of_reaches (hfirst ..)
  | case10 _ _ _ _ _ _ _ hstrict => exact absurd rfl hstrict

/-- Nor does a walk get to anything where the search ends in a circle of links. -/
theorem astray_of_circle (hnamed : t.Named) (hplain : t.Plain here) {link : Location}
    {more : List Text} (h : t.canonical true t.links here names = .ok (.circle link more))
    {written : List Text} (hwritten : written.filter Path.isComponent = names) (links : ℕ)
    (rest : List Text) : t.Astray ⟨links, here, written ++ rest⟩ := by
  have hresolves := resolves_of_canonical h
  obtain ⟨parent, name, target, rfl, -, hentry⟩ := hresolves.isPlain hplain
  have hdoomed : t.Doomed (parent ++ [name]) :=
    (hresolves.not_mem_or_doomed hnamed rfl).resolve_left fun hnot =>
      hnot (mem_links_of_lookup hentry (by simp))
  obtain ⟨left, ahead, hreaches⟩ :=
    hresolves.walked hnamed hwritten links rest parent name rfl
  exact (hreaches.fails (hdoomed _ _ _ _ rfl)).astray

/-! ### Files that are there -/

theorem exists_file_of_isFile (h : t.isFile cwd p = .ok true) :
    ∃ place content, t.locate .target cwd p = .ok place ∧
      t.lookup place = some (.file content) := by
  cases hplace : t.locate .target cwd p with
  | error fault => cases fault <;> simp [isFile, asks, find, hplace, bind, Except.bind] at h
  | ok place =>
      cases hlookup : t.lookup place with
      | none => simp [isFile, asks, find, hplace, hlookup, bind, Except.bind] at h
      | some entry =>
          cases entry with
          | file content => exact ⟨place, content, rfl, hlookup⟩
          | directory => simp [isFile, asks, find, hplace, hlookup, bind, Except.bind] at h
          | link target => simp [isFile, asks, find, hplace, hlookup, bind, Except.bind] at h

/-- A question whether something is a file fails only on a name that is too long. -/
theorem eq_nameTooLong_of_isFile (h : t.isFile cwd p = .error fault) : fault = .nameTooLong := by
  unfold isFile asks at h
  split at h
  · cases h
  · cases h; rfl
  · cases h

/-- What has a name of more bytes than names have is not looked for. -/
theorem isFile_of_long (hname : IsEntryName name) (hlong : nameLimit < Text.utf8Size name)
    (hnul : Char.ofNat 0 ∉ (Path.mk .root [name]).text) :
    t.isFile cwd ⟨.root, [name]⟩ = .error .nameTooLong := by
  have hwalk : t.walk .target linkLimit [] [name] = .error .nameTooLong := by
    rw [walk]
    simp [isDirectoryAt, lookup, hname.not_blank, hname.2, hlong]
  have hlocate : t.locate .target cwd ⟨.root, [name]⟩ = .error .nameTooLong := by
    unfold locate
    split_ifs with hcontains
    · exact absurd (by simpa using hcontains) hnul
    · rfl
    · exact hwalk
  simp [isFile, asks, find, hlocate, bind, Except.bind]

/-- What is a file has a canonical location. -/
theorem exists_canonical_of_isFile (hnamed : t.Named) (hnulfree : t.NulFree)
    (horigin : t.Plain (p.origin cwd)) (htidy : p.Tidy) (h : t.isFile cwd p = .ok true) :
    ∃ found, t.canonical true t.links (p.origin cwd) p.parts = .ok (.place found) := by
  obtain ⟨place, content, hplace, hfile⟩ := exists_file_of_isFile h
  have hwritten : p.parts.filter Path.isComponent = p.parts := List.filter_eq_self.2 htidy
  have hwalk : t.outcome ⟨linkLimit, p.origin cwd, p.parts ++ []⟩ = .ok place := by
    unfold locate at hplace
    split_ifs at hplace
    simpa [outcome] using hplace
  have hfound : ¬t.Astray ⟨linkLimit, p.origin cwd, p.parts ++ []⟩ := fun hastray => by
    cases hfile.symm.trans (hastray place hwalk)
  cases hreach : t.canonical true t.links (p.origin cwd) p.parts with
  | error fault =>
      exact absurd (astray_of_canonical hnamed hnulfree hreach hwritten linkLimit []) hfound
  | ok reach =>
      cases reach with
      | circle link more =>
          exact absurd (astray_of_circle hnamed horigin hreach hwritten linkLimit []) hfound
      | place found => exact ⟨found, rfl⟩

/-- What is a file has a canonical path. -/
theorem exists_realPath_of_isFile (hnamed : t.Named) (hnulfree : t.NulFree)
    (horigin : t.Plain (p.origin cwd)) (htidy : p.Tidy) (h : t.isFile cwd p = .ok true) :
    ∃ q, t.realPath true cwd p = .ok q := by
  obtain ⟨found, hfound⟩ := exists_canonical_of_isFile hnamed hnulfree horigin htidy h
  refine ⟨Path.ofLocation found, ?_⟩
  rw [realPath, hfound]
  rfl

theorem Plain.tidy (h : t.Plain place) (hnamed : t.Named) : (Path.ofLocation place).Tidy := by
  induction h with
  | root => exact fun _ hname => absurd hname List.not_mem_nil
  | child _ _ _ hentry _ ih =>
      intro part hpart
      rcases List.mem_append.1 hpart with hpart | hpart
      · exact ih part hpart
      · rw [List.mem_singleton.1 hpart]
        exact (hnamed.isEntryName hentry).1

theorem Plain.nul_not_mem (h : t.Plain place) (hname : name ∈ place) : Char.ofNat 0 ∉ name := by
  induction h with
  | root => simp at hname
  | child _ _ hnul _ _ ih =>
      rcases List.mem_append.1 hname with hname | hname
      · exact ih hname
      · rwa [List.mem_singleton.1 hname]

theorem Plain.nul_not_mem_text (h : t.Plain place) :
    Char.ofNat 0 ∉ (Path.ofLocation place).text := by
  have hne : Path.ofLocation place ≠ Path.here := by simp [Path.ofLocation, Path.here]
  have hanchor : Char.ofNat 0 ∉ Anchor.root.text := by decide
  have hjoined : Char.ofNat 0 ∉ ['/'].intercalate place :=
    Text.not_mem_intercalate (by decide) fun name hname => h.nul_not_mem hname
  rw [Path.text, if_neg hne, List.mem_append, not_or]
  exact ⟨hanchor, hjoined⟩

/-- A walk takes null characters like any others. -/
theorem isOfText_of_walk {fault : Fault} {aim : Aim} {links : ℕ} {here : Location}
    {names : List Text} (h : t.walk aim links here names = .error fault) :
    fault.isOfText = false := by
  fun_induction walk t aim links here names <;> grind [Fault.isOfText]

theorem Plain.isOfText_of_locate {fault : Fault} (h : t.Plain place)
    (hlocate : t.locate .target cwd (Path.ofLocation place) = .error fault) :
    fault.isOfText = false := by
  unfold locate at hlocate
  split_ifs at hlocate with hnul
  · exact absurd (by simpa using hnul) h.nul_not_mem_text
  · rw [← Except.error.inj hlocate]
    rfl
  · exact isOfText_of_walk hlocate

theorem Plain.isOfText_of_readText {fault : Fault} (h : t.Plain place)
    (hread : t.readText cwd (Path.ofLocation place) = .error fault) : fault.isOfText = false := by
  -- only the way to the place could be refused so, not what is found there
  rcases bind_eq_error_iff.1 hread with hbytes | ⟨bytes, -, hdecode⟩
  · rcases bind_eq_error_iff.1 hbytes with hfind | ⟨entry, -, hentry⟩
    · rcases bind_eq_error_iff.1 hfind with hlocate | ⟨found, -, hlookup⟩
      · exact h.isOfText_of_locate hlocate
      · split at hlookup <;> cases hlookup
        rfl
    · cases entry <;> cases hentry <;> rfl
  · split at hdecode <;> cases hdecode
    rfl

end SolidityFlattener.Tree
