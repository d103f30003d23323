import SolidityFlattener.Proofs.Imports.RootFiles
import SolidityFlattener.Proofs.Tree.Access
import SolidityFlattener.Proofs.Tree.Depth

/-!
Which files a listing holds, and in which order.

A file is selected below a directory by the names that lead to it. One name more in front asks that
this name is of a directory that may be entered, and the rest is selected below it one level
deeper; this is what the descent does. The rounds that bound it are never used up, since no path
leads anywhere that has more names. Files are listed name by name and below a directory before the
next name, so paths ascend component by component.
-/

namespace SolidityFlattener

/-! ### Names in strict order -/

theorem Text.lt_of_le {a b : Text} (hle : Text.le a b) (hne : a ≠ b) : a < b := by
  induction a generalizing b with
  | nil =>
      cases b with
      | nil => exact absurd rfl hne
      | cons d b => exact List.nil_lt_cons d b
  | cons c a ih =>
      cases b with
      | nil => simp [Text.le] at hle
      | cons d b =>
          have hcase : c < d ∨ c = d ∧ Text.le a b := by simpa [Text.le] using hle
          refine List.cons_lt_cons_iff.2 (hcase.imp_right ?_)
          rintro ⟨rfl, hrest⟩
          exact ⟨rfl, ih hrest fun heq => hne (congrArg (c :: ·) heq)⟩

namespace Tree

variable {t : Tree} {cwd here place other : Location} {name : Text} {p root : Path}
  {anchor : Anchor} {parts : List Text} {strict : Bool} {s : Standing}

theorem nodup_namesAt (h : t.locations.Nodup) (here : Location) : (t.namesAt here).Nodup := by
  rw [namesAt_eq_filterMap]
  refine h.filterMap fun place other name hname hother => ?_
  rw [nameIn_eq_some_iff.1 hname, nameIn_eq_some_iff.1 hother]

/-- The names in a directory, each once, ascend. -/
theorem pairwise_sorted_namesAt (h : t.locations.Nodup) (here : Location) :
    ((t.namesAt here).mergeSort Text.le).Pairwise (· < ·) := by
  have hnodup : ((t.namesAt here).mergeSort Text.le).Nodup :=
    (List.mergeSort_perm _ _).nodup_iff.2 (nodup_namesAt h here)
  exact (Text.pairwise_mergeSort_le _).imp₂ (fun _ _ => Text.lt_of_le) hnodup

theorem Leads.unique (h : t.Leads .target s place) (h' : t.Leads .target s other) :
    place = other :=
  Except.ok.inj ((walk_eq_ok_iff.2 h).symm.trans (walk_eq_ok_iff.2 h'))

/-- What stands below a directory is among the names there. -/
theorem mem_namesAt_of_locate (hdirectory : t.locate .target cwd ⟨anchor, parts⟩ = .ok here)
    (hentry : t.locate .target cwd ⟨anchor, parts ++ [name]⟩ = .ok place)
    (hname : IsEntryName name) (hthere : t.lookup place ≠ none) : name ∈ t.namesAt here := by
  obtain ⟨-, hleads⟩ := locate_eq_ok_iff.1 hentry
  obtain ⟨-, habove⟩ := locate_eq_ok_iff.1 hdirectory
  obtain ⟨middle, left, hfront, hlast⟩ := hleads.split rfl (List.cons_ne_nil name [])
  obtain rfl : middle = here := hfront.unique habove
  rw [mem_namesAt_iff, mem_locations_iff (by simp)]
  have hshape : t.shapeAt (middle ++ [name]) ≠ none → t.lookup (middle ++ [name]) ≠ none := by
    intro hshape hnone
    exact hshape (by rw [shapeAt, hnone]; rfl)
  cases hlast with
  | ends hends =>
      cases hends with
      | missing _ _ hnone => exact hthere
      | link _ _ _ haim => cases haim
  | goes hgoes =>
      cases hgoes with
      | skip _ hblank => exact absurd hblank hname.not_blank
      | parent => exact absurd rfl hname.2
      | child _ _ hfound => exact hshape (by simp [hfound])
      | follow _ _ hfound => exact hshape (by simp [hfound])

/-- A canonical path names a location. -/
theorem exists_ofLocation_of_realPath (h : t.realPath strict cwd root = .ok p) :
    ∃ place, p = .ofLocation place := by
  unfold realPath at h
  obtain ⟨reach, -, hreach⟩ := bind_eq_ok_iff.1 h
  cases reach with
  | place place => exact ⟨place, (Except.ok.inj hreach).symm⟩
  | circle link rest =>
      simp only at hreach
      split at hreach
      · exact ⟨_, (Except.ok.inj hreach).symm⟩
      · split at hreach
        · cases hreach
        · exact ⟨_, (Except.ok.inj hreach).symm⟩

end Tree

/-! ### Selected files -/

/-- A path further down. -/
def Path.below (p : Path) (names : List Text) : Path := ⟨p.anchor, p.parts ++ names⟩

theorem Path.below_cons (p : Path) (name : Text) (names : List Text) :
    p.below (name :: names) = (p.below [name]).below names := by
  simp [below]

variable {t : Tree} {cwd here : Location} {sel : Selection} {fuel : ℕ} {depth : Int}
  {directory root f : Path} {first name : Text} {middle : List Text} {files found : List Path}

theorem not_maxDepth_any_iff :
    ¬sel.maxDepth.any (· < depth) ↔ ∀ limit ∈ sel.maxDepth, depth ≤ limit := by
  cases sel.maxDepth with
  | none => simp
  | some limit => simp

/-- A file below a directory that a listing takes at some depth: a file and no directory, with one
of the extensions, to which names of entries lead through directories only, none of which is
excluded, and which is not too deep. -/
structure Selected (t : Tree) (cwd : Location) (sel : Selection) (directory : Path) (depth : Int)
    (middle : List Text) (name : Text) : Prop where
  names : ∀ other ∈ middle ++ [name], Tree.IsEntryName other
  directories : ∀ front, front <+: middle → front ≠ [] →
    t.isDirectory cwd (directory.below front) = .ok true
  entered : ∀ other ∈ middle, other ∉ sel.excluded
  shallow : ∀ limit ∈ sel.maxDepth, depth + middle.length ≤ limit
  isFile : t.isFile cwd (directory.below (middle ++ [name])) = .ok true
  isDirectory : t.isDirectory cwd (directory.below (middle ++ [name])) = .ok false
  extension : Text.lower (directory.below (middle ++ [name])).suffix ∈ sel.extensions

namespace Selected

/-- A file is selected below the first of its directories, which is entered. -/
theorem cons_iff : Selected t cwd sel directory depth (first :: middle) name ↔
    Tree.IsEntryName first ∧ t.isDirectory cwd (directory.below [first]) = .ok true ∧
      first ∉ sel.excluded ∧
        Selected t cwd sel (directory.below [first]) (depth + 1) middle name := by
  have hbelow : ∀ names, (directory.below [first]).below names = directory.below (first :: names) :=
    fun names => (directory.below_cons first names).symm
  constructor
  · intro h
    obtain ⟨hfirst, hnames⟩ := List.forall_mem_cons.1 h.names
    obtain ⟨hentered, hrest⟩ := List.forall_mem_cons.1 h.entered
    have hdir := h.directories [first] (List.prefix_cons_iff.2 (.inr ⟨[], by simp⟩)) (by simp)
    refine ⟨hfirst, hdir, hentered, ?_⟩
    exact {
      names := hnames
      directories := fun front hfront hne => by
        rw [hbelow]
        exact h.directories _ (List.cons_prefix_cons.2 ⟨rfl, hfront⟩) (by simp)
      entered := hrest
      shallow := fun limit hlimit => by
        have := h.shallow limit hlimit
        simp only [List.length_cons] at this
        omega
      isFile := by rw [hbelow]; exact h.isFile
      isDirectory := by rw [hbelow]; exact h.isDirectory
      extension := by rw [hbelow]; exact h.extension }
  · rintro ⟨hfirst, hdir, hentered, h⟩
    exact {
      names := List.forall_mem_cons.2 ⟨hfirst, h.names⟩
      directories := fun front hfront hne => by
        rcases List.prefix_cons_iff.1 hfront with rfl | ⟨rest, rfl, hrest⟩
        · exact absurd rfl hne
        · by_cases hnil : rest = []
          · rwa [hnil]
          · rw [← hbelow]
            exact h.directories rest hrest hnil
      entered := List.forall_mem_cons.2 ⟨hentered, h.entered⟩
      shallow := fun limit hlimit => by
        have := h.shallow limit hlimit
        simp only [List.length_cons]
        omega
      isFile := by rw [List.cons_append, ← hbelow]; exact h.isFile
      isDirectory := by rw [List.cons_append, ← hbelow]; exact h.isDirectory
      extension := by rw [List.cons_append, ← hbelow]; exact h.extension }

theorem nil_iff : Selected t cwd sel directory depth [] name ↔
    Tree.IsEntryName name ∧ (∀ limit ∈ sel.maxDepth, depth ≤ limit) ∧
      t.isFile cwd (directory.below [name]) = .ok true ∧
        t.isDirectory cwd (directory.below [name]) = .ok false ∧
          Text.lower (directory.below [name]).suffix ∈ sel.extensions := by
  constructor
  · intro h
    exact ⟨h.names name List.mem_cons_self, by simpa using h.shallow, h.isFile, h.isDirectory,
      h.extension⟩
  · rintro ⟨hname, hshallow, hfile, hdir, hextension⟩
    exact {
      names := by simpa using hname
      directories := by simp
      entered := by simp
      shallow := by simpa using hshallow
      isFile := hfile
      isDirectory := hdir
      extension := hextension }

/-- The first name that leads to a selected file is one in the directory. -/
theorem mem_namesAt {place : Location} (h : Selected t cwd sel directory depth middle name)
    (hfirst : (middle ++ [name]).head? = some first)
    (hplace : t.locate .target cwd directory = .ok place) : first ∈ t.namesAt place := by
  cases middle with
  | nil =>
      obtain rfl := Option.some.inj hfirst
      obtain ⟨hname, -, hfile, -⟩ := nil_iff.1 h
      obtain ⟨found, content, hfound, hcontent⟩ := Tree.exists_file_of_isFile hfile
      exact Tree.mem_namesAt_of_locate hplace hfound hname (by simp [hcontent])
  | cons other middle =>
      obtain rfl := Option.some.inj hfirst
      obtain ⟨hfirst, hdir, -⟩ := cons_iff.1 h
      obtain ⟨found, hfound, hthere⟩ := Tree.isDirectory_eq_ok_true_iff.1 hdir
      exact Tree.mem_namesAt_of_locate hplace hfound hfirst
        (by simp [Tree.isDirectoryAt_iff.1 hthere])

/-- No more names lead to a selected file than a path can take. -/
theorem length_lt (h : Selected t cwd sel (.ofLocation here) depth middle name) :
    middle.length < t.wayLimit Tree.linkLimit := by
  obtain ⟨place, content, hplace, -⟩ := Tree.exists_file_of_isFile h.isFile
  have hlength := Tree.length_le_of_locate hplace (by simp [Path.ofLocation]) h.names
  simpa using hlength

end Selected

/-! ### What a descent lists -/

/-- What one entry adds to a listing: nothing, what is listed below it, or itself. -/
theorem filesIn_cases (h : filesIn t cwd sel fuel depth directory name = .ok found) :
    found = [] ∨
      (t.isDirectory cwd (directory.below [name]) = .ok true ∧ name ∉ sel.excluded ∧
        filesBelow t cwd sel fuel (depth + 1) (directory.below [name]) = .ok found) ∨
      (t.isDirectory cwd (directory.below [name]) = .ok false ∧
        t.isFile cwd (directory.below [name]) = .ok true ∧
          Text.lower (directory.below [name]).suffix ∈ sel.extensions ∧
            found = [directory.below [name]]) := by
  rcases filesIn_eq_ok_iff.1 h with ⟨hdir, hbelow⟩ | ⟨hdir, isFile, hfile, rfl⟩
  · split at hbelow
    · exact .inl hbelow
    · next hentered => exact .inr (.inl ⟨hdir, by simpa using hentered, hbelow⟩)
  · split
    · next hlisted =>
      obtain ⟨rfl, hextension⟩ := hlisted
      exact .inr (.inr ⟨hdir, hfile, List.contains_iff_mem.1 hextension, rfl⟩)
    · exact .inl rfl

/-- A listed file is selected. -/
theorem exists_selected_of_mem_filesBelow (hnamed : t.Named)
    (h : filesBelow t cwd sel fuel depth directory = .ok files) (hf : f ∈ files) :
    ∃ middle name, f = directory.below (middle ++ [name]) ∧
      Selected t cwd sel directory depth middle name := by
  induction fuel generalizing depth directory files with
  | zero =>
      obtain rfl : [] = files := Except.ok.inj h
      simp at hf
  | succ fuel ih =>
      rw [filesBelow_succ_eq_ok_iff] at h
      split at h
      · simp [h] at hf
      next hshallow =>
      obtain ⟨names, parts, hnames, hparts, rfl⟩ := h
      obtain ⟨found, hfound, hf⟩ := List.mem_flatten.1 hf
      obtain ⟨name, hname, hin⟩ := (mem_of_mapM_eq_ok hparts).1 hfound
      obtain ⟨place, -, -, rfl⟩ := Tree.list_eq_ok_iff.1 hnames
      have hentry : Tree.IsEntryName name :=
        hnamed.isEntryName_of_mem_namesAt (List.mem_mergeSort.1 hname) name (by simp)
      rcases filesIn_cases hin with rfl | ⟨hdir, hentered, hbelow⟩ |
        ⟨hdir, hfile, hextension, rfl⟩
      · simp at hf
      · obtain ⟨middle, last, rfl, hselected⟩ := ih hbelow hf
        refine ⟨name :: middle, last, (directory.below_cons name _).symm, ?_⟩
        exact Selected.cons_iff.2 ⟨hentry, hdir, hentered, hselected⟩
      · obtain rfl := List.mem_singleton.1 hf
        refine ⟨[], name, rfl, ?_⟩
        exact Selected.nil_iff.2
          ⟨hentry, not_maxDepth_any_iff.1 hshallow, hfile, hdir, hextension⟩

/-- What the first name that leads to a selected file adds to the listing. -/
theorem Selected.exists_filesIn (hselected : Selected t cwd sel directory depth middle name)
    (hfirst : (middle ++ [name]).head? = some first)
    (h : filesBelow t cwd sel (fuel + 1) depth directory = .ok files) :
    ∃ found, filesIn t cwd sel fuel depth directory first = .ok found ∧ found ⊆ files := by
  have hshallow : ¬sel.maxDepth.any (· < depth) := by
    refine not_maxDepth_any_iff.2 fun limit hlimit => ?_
    have := hselected.shallow limit hlimit
    omega
  rw [filesBelow_succ_eq_ok_iff, if_neg hshallow] at h
  obtain ⟨names, parts, hnames, hparts, rfl⟩ := h
  obtain ⟨place, hplace, -, rfl⟩ := Tree.list_eq_ok_iff.1 hnames
  have hmem : first ∈ (t.namesAt place).mergeSort Text.le :=
    List.mem_mergeSort.2 (hselected.mem_namesAt hfirst hplace)
  obtain ⟨found, hfound⟩ := exists_mapM_eq_ok_iff.1 ⟨parts, hparts⟩ first hmem
  have hpart : found ∈ parts := (mem_of_mapM_eq_ok hparts).2 ⟨_, hmem, hfound⟩
  exact ⟨found, hfound, fun f hf => List.mem_flatten.2 ⟨found, hpart, hf⟩⟩

/-- A selected file is listed in as many rounds as directories lead to it, and one more. -/
theorem Selected.mem_filesBelow (hselected : Selected t cwd sel directory depth middle name)
    (hfuel : middle.length < fuel)
    (h : filesBelow t cwd sel fuel depth directory = .ok files) :
    directory.below (middle ++ [name]) ∈ files := by
  induction middle generalizing fuel depth directory files with
  | nil =>
      obtain ⟨fuel, rfl⟩ := Nat.exists_eq_succ_of_ne_zero hfuel.ne_bot
      obtain ⟨found, hin, hfound⟩ := hselected.exists_filesIn rfl h
      obtain ⟨-, -, hfile, hdir, hextension⟩ := Selected.nil_iff.1 hselected
      apply hfound
      rcases filesIn_eq_ok_iff.1 hin with ⟨hdir', -⟩ | ⟨-, isFile, hfile', rfl⟩
      · exact absurd (hdir.symm.trans hdir') (by simp)
      · obtain rfl : true = isFile := Except.ok.inj (hfile.symm.trans hfile')
        rw [if_pos ⟨rfl, List.contains_iff_mem.2 hextension⟩]
        exact List.mem_singleton_self _
  | cons first middle ih =>
      obtain ⟨fuel, rfl⟩ := Nat.exists_eq_succ_of_ne_zero (Nat.ne_zero_of_lt hfuel)
      obtain ⟨found, hin, hfound⟩ := hselected.exists_filesIn rfl h
      obtain ⟨-, hdir, hentered, hbelow⟩ := Selected.cons_iff.1 hselected
      apply hfound
      rw [List.cons_append, Path.below_cons]
      rcases filesIn_eq_ok_iff.1 hin with ⟨-, hfiles⟩ | ⟨hdir', -⟩
      · rw [if_neg (by simpa using hentered)] at hfiles
        exact ih hbelow (Nat.lt_of_succ_lt_succ hfuel) hfiles
      · exact absurd (hdir.symm.trans hdir') (by simp)

/-! ### The order -/

section Order

variable {ε : Type} {below : Text → Except ε (List Path)} {names : List Text}
  {parts : List (List Path)} {before : Path → Path → Prop}

/-- What is found name by name is in order if what is found for each name is, and if all that is
found for one name is before all that is found for a later one. -/
theorem pairwise_flatten_of_mapM (h : names.mapM below = .ok parts)
    (hnames : names.Pairwise (· < ·))
    (hin : ∀ name ∈ names, ∀ found, below name = .ok found → found.Pairwise before)
    (hacross : ∀ name found other found', below name = .ok found → below other = .ok found' →
      name < other → ∀ f ∈ found, ∀ g ∈ found', before f g) :
    parts.flatten.Pairwise before := by
  induction names generalizing parts with
  | nil =>
      obtain rfl : [] = parts := Except.ok.inj h
      exact .nil
  | cons name names ih =>
      obtain ⟨found, rest, hfound, hrest, rfl⟩ := mapM_cons_eq_ok_iff.1 h
      obtain ⟨hfirst, hnames⟩ := List.pairwise_cons.1 hnames
      obtain ⟨hname, hin⟩ := List.forall_mem_cons.1 hin
      rw [List.flatten_cons, List.pairwise_append]
      refine ⟨hname found hfound, ih hrest hnames hin, fun f hf g hg => ?_⟩
      obtain ⟨found', hpart, hg⟩ := List.mem_flatten.1 hg
      obtain ⟨other, hother, hin⟩ := (mem_of_mapM_eq_ok hrest).1 hpart
      exact hacross name found other found' hfound hin (hfirst other hother) f hf g hg

end Order

/-- What one entry adds has the name of the entry in its path. -/
theorem exists_parts_of_mem_filesIn (h : filesIn t cwd sel fuel depth directory name = .ok found)
    (hf : f ∈ found) : ∃ rest, f.parts = directory.parts ++ name :: rest := by
  rcases filesIn_cases h with rfl | ⟨-, -, hbelow⟩ | ⟨-, -, -, rfl⟩
  · simp at hf
  · obtain ⟨⟨middle, last, rfl, -⟩, -⟩ := listedBelow_of_mem_filesBelow hbelow hf
    exact ⟨middle ++ [last], by simp [Path.below]⟩
  · obtain rfl := List.mem_singleton.1 hf
    exact ⟨[], rfl⟩

/-- The paths that are listed ascend. -/
theorem pairwise_filesBelow (hnodup : t.locations.Nodup)
    (h : filesBelow t cwd sel fuel depth directory = .ok files) :
    files.Pairwise fun f g => f.parts < g.parts := by
  induction fuel generalizing depth directory files with
  | zero =>
      obtain rfl : [] = files := Except.ok.inj h
      exact .nil
  | succ fuel ih =>
      rw [filesBelow_succ_eq_ok_iff] at h
      split at h
      · rw [h]
        exact .nil
      obtain ⟨names, parts, hnames, hparts, rfl⟩ := h
      obtain ⟨place, -, -, rfl⟩ := Tree.list_eq_ok_iff.1 hnames
      -- two entries differ first in their names, whatever comes behind these
      refine pairwise_flatten_of_mapM hparts (Tree.pairwise_sorted_namesAt hnodup place) ?_ ?_
      · intro name _ found hin
        rcases filesIn_cases hin with rfl | ⟨-, -, hbelow⟩ | ⟨-, -, -, rfl⟩
        · exact .nil
        · exact ih hbelow
        · exact List.pairwise_singleton _ _
      · intro name found other found' hin hin' hlt f hf g hg
        obtain ⟨rest, hrest⟩ := exists_parts_of_mem_filesIn hin hf
        obtain ⟨rest', hrest'⟩ := exists_parts_of_mem_filesIn hin' hg
        rw [hrest, hrest']
        exact List.append_left_lt (List.cons_lt_cons_iff.2 (.inl hlt))

/-- In a tree with names of entries, each location once, a listing that succeeds starts from the
canonical path of its root and holds exactly the files that are selected below it: by one name or
more, of which all but the last are those of directories, none of these excluded and not more than
the greatest depth, where there is one. Their paths have the start in common and ascend strictly,
component by component. -/
theorem rootFiles_selects (hnamed : t.Named) (hnodup : t.locations.Nodup)
    (h : rootFiles t cwd sel root = .ok files) :
    ∃ start, t.realPath false cwd root = .ok start ∧
      (∀ f, f ∈ files ↔ ∃ middle name, f = start.below (middle ++ [name]) ∧
        Selected t cwd sel start 0 middle name) ∧
      files.Pairwise fun f g => f.parts < g.parts := by
  obtain ⟨start, hstart, hfiles⟩ := rootFiles_eq_ok_iff.1 h
  refine ⟨start, hstart, fun f => ⟨?_, ?_⟩, pairwise_filesBelow hnodup hfiles⟩
  · exact exists_selected_of_mem_filesBelow hnamed hfiles
  · rintro ⟨middle, name, rfl, hselected⟩
    obtain ⟨place, rfl⟩ := Tree.exists_ofLocation_of_realPath hstart
    -- the file can be walked to, so the rounds are more than the directories that lead to it
    have hlength := hselected.length_lt
    have hrounds : t.wayLimit Tree.linkLimit = (t.entries.length + 1) * (Tree.linkLimit + 1) :=
      Nat.mul_comm _ _
    exact hselected.mem_filesBelow (by omega) hfiles

/-- A directory beside a file of its name, with a directory inside, a link to it, an excluded
directory, and a file with an extension in capitals. -/
def layeredTree : Tree where
  entries :=
    [(["a".toList], .directory), (["a".toList, "z.sol".toList], .file .empty),
      (["a".toList, "deep".toList], .directory),
      (["a".toList, "deep".toList, "y.sol".toList], .file .empty),
      (["a.sol".toList], .file .empty), (["k".toList], .link "a".toList),
      (["node_modules".toList], .directory),
      (["node_modules".toList, "x.sol".toList], .file .empty), (["B.SOL".toList], .file .empty)]

def layeredFiles : List Path :=
  [.ofLocation ["B.SOL".toList], .ofLocation ["a".toList, "z.sol".toList],
    .ofLocation ["a.sol".toList], .ofLocation ["k".toList, "z.sol".toList]]

theorem rootFiles_layeredTree :
    rootFiles layeredTree [] { Selection.default with maxDepth := some 1 } (.ofLocation []) =
      .ok layeredFiles := by
  cbv

theorem rootFiles_selects_layeredFiles :
    (layeredTree.Named ∧ layeredTree.locations.Nodup) ∧
      ∃ start, layeredTree.realPath false [] (.ofLocation []) = .ok start ∧
        (∃ middle name, .ofLocation ["k".toList, "z.sol".toList] = start.below (middle ++ [name]) ∧
          Selected layeredTree [] { Selection.default with maxDepth := some 1 } start 0 middle
            name) ∧
        layeredFiles.Pairwise fun f g => f.parts < g.parts := by
  have hnamed : layeredTree.Named := by
    unfold Tree.Named Tree.IsEntryName
    decide
  have hnodup : layeredTree.locations.Nodup := by decide
  obtain ⟨start, hstart, hselects, hsorted⟩ :=
    rootFiles_selects hnamed hnodup rootFiles_layeredTree
  refine ⟨⟨hnamed, hnodup⟩, start, hstart, ?_, hsorted⟩
  exact (hselects _).1 (by decide)

end SolidityFlattener
