import SolidityFlattener.Imports.RootFiles
import SolidityFlattener.Proofs.Tree.Additions

/-!
What is listed below a directory, and when it stays listed.

A listed file has one of the extensions, and none of the directories between it and the start is
excluded. The descent is bounded by a number of rounds, but in a tree without links each directory
that is entered has an entry of its own, so every number of rounds that is large enough gives the
same list. With that a listing does not see what a tree grows by below an excluded name.
-/

namespace SolidityFlattener

variable {t t' : Tree} {cwd here above : Location} {sel : Selection} {fuel fuel' : ℕ} {depth : Int}
  {directory root f : Path} {name : Text} {names : List Text} {files found : List Path}

/-! ### Names in order -/

namespace Text

theorem le_total (a b : Text) : le a b || le b a := by
  induction a generalizing b with
  | nil => simp [le]
  | cons c a ih =>
      cases b with
      | nil => simp [le]
      | cons d b =>
          rcases lt_trichotomy c d with h | rfl | h
          · simp [le, h]
          · simpa [le] using ih b
          · simp [le, h]

theorem le_antisymm {a b : Text} (hab : le a b) (hba : le b a) : a = b := by
  induction a generalizing b with
  | nil =>
      cases b with
      | nil => rfl
      | cons d b => simp [le] at hba
  | cons c a ih =>
      cases b with
      | nil => simp [le] at hab
      | cons d b =>
          rcases lt_trichotomy c d with h | rfl | h
          · simp [le, h.not_gt, h.ne'] at hba
          · rw [ih (by simpa [le] using hab) (by simpa [le] using hba)]
          · simp [le, h.not_gt, h.ne'] at hab

theorem le_trans {a b c : Text} (hab : le a b) (hbc : le b c) : le a c := by
  induction a generalizing b c with
  | nil => simp [le]
  | cons x a ih =>
      cases b with
      | nil => simp [le] at hab
      | cons y b =>
          cases c with
          | nil => simp [le] at hbc
          | cons z c =>
              have hxy : x < y ∨ x = y ∧ le a b := by simpa [le] using hab
              have hyz : y < z ∨ y = z ∧ le b c := by simpa [le] using hbc
              have hxz : x < z ∨ x = z ∧ le a c := by
                rcases hxy with hxy | ⟨rfl, htail⟩
                · rcases hyz with hyz | ⟨rfl, -⟩
                  · exact .inl (hxy.trans hyz)
                  · exact .inl hxy
                · exact hyz.imp_right fun h => ⟨h.1, ih htail h.2⟩
              simpa [le] using hxz

theorem pairwise_mergeSort_le (names : List Text) :
    (names.mergeSort le).Pairwise fun a b => le a b :=
  @List.pairwise_mergeSort Text le (fun _ _ _ => le_trans) le_total names

/-- One more name is put between names in order. -/
theorem exists_mergeSort_append_singleton (names : List Text) (name : Text) :
    ∃ front back, (names ++ [name]).mergeSort le = front ++ name :: back ∧
      names.mergeSort le = front ++ back := by
  have hperm := List.mergeSort_perm (names ++ [name]) le
  obtain ⟨front, back, hsplit⟩ := List.append_of_mem (hperm.mem_iff.2 (by simp : name ∈ _))
  refine ⟨front, back, hsplit, ?_⟩
  have hsorted := pairwise_mergeSort_le (names ++ [name])
  rw [hsplit] at hperm hsorted
  have hrest : (front ++ back).Perm names := by
    have hcons : (name :: (front ++ back)).Perm (name :: names) :=
      List.perm_middle.symm.trans (hperm.trans List.perm_append_comm)
    exact hcons.cons_inv
  exact List.Perm.eq_of_pairwise (fun _ _ _ _ => le_antisymm) (pairwise_mergeSort_le names)
    (hsorted.sublist ((List.sublist_cons_self name back).append_left front))
    ((List.mergeSort_perm names le).trans hrest.symm)

end Text

/-! ### One directory -/

/-- The files that an entry of a directory adds to a listing. -/
def filesIn (t : Tree) (cwd : Location) (sel : Selection) (fuel : ℕ) (depth : Int)
    (directory : Path) (name : Text) : Except Fault (List Path) := do
  let entry : Path := ⟨directory.anchor, directory.parts ++ [name]⟩
  if ← t.isDirectory cwd entry then
    if sel.excluded.contains name then return []
    else filesBelow t cwd sel fuel (depth + 1) entry
  else if ← t.isFile cwd entry then
    return if sel.extensions.contains (Text.lower entry.suffix) then [entry] else []
  else return []

theorem filesBelow_succ_eq_ok_iff :
    filesBelow t cwd sel (fuel + 1) depth directory = .ok files ↔
      if sel.maxDepth.any (· < depth) then files = []
      else ∃ names parts, t.list cwd directory = .ok names ∧
        names.mapM (filesIn t cwd sel fuel depth directory) = .ok parts ∧
          files = parts.flatten := by
  rw [filesBelow]
  split
  · simp [eq_comm]
  · simp only [bind_eq_ok_iff]
    refine exists_congr fun names => ?_
    rw [← exists_and_left]
    refine exists_congr fun parts => and_congr_right fun _ => and_congr_right fun _ => ?_
    exact ⟨fun h => (Except.ok.inj h).symm, fun h => congrArg _ h.symm⟩

theorem filesIn_eq_ok_iff :
    filesIn t cwd sel fuel depth directory name = .ok found ↔
      t.isDirectory cwd ⟨directory.anchor, directory.parts ++ [name]⟩ = .ok true ∧
          (if sel.excluded.contains name then found = []
            else filesBelow t cwd sel fuel (depth + 1)
              ⟨directory.anchor, directory.parts ++ [name]⟩ = .ok found) ∨
        t.isDirectory cwd ⟨directory.anchor, directory.parts ++ [name]⟩ = .ok false ∧
          ∃ isFile, t.isFile cwd ⟨directory.anchor, directory.parts ++ [name]⟩ = .ok isFile ∧
            found = if isFile ∧ sel.extensions.contains
                (Text.lower (⟨directory.anchor, directory.parts ++ [name]⟩ : Path).suffix)
              then [⟨directory.anchor, directory.parts ++ [name]⟩] else [] := by
  simp only [filesIn]
  generalize (⟨directory.anchor, directory.parts ++ [name]⟩ : Path) = entry
  cases t.isDirectory cwd entry with
  | error fault => simp [bind, Except.bind]
  | ok isDirectory =>
      cases isDirectory with
      | true =>
          simp only [bind, Except.bind, if_true, true_and, Except.ok.injEq, reduceCtorEq,
            false_and, or_false]
          split
          · exact ⟨fun h => (Except.ok.inj h).symm, fun h => congrArg _ h.symm⟩
          · exact Iff.rfl
      | false =>
          cases t.isFile cwd entry with
          | error fault => simp [bind, Except.bind]
          | ok isFile =>
              cases isFile <;> simp [bind, Except.bind, pure, Except.pure, eq_comm]

theorem Tree.list_eq_ok_iff {p : Path} :
    t.list cwd p = .ok names ↔ ∃ place, t.locate .target cwd p = .ok place ∧
      t.isDirectoryAt place ∧ names = (t.namesAt place).mergeSort Text.le := by
  unfold Tree.list
  rw [bind_eq_ok_iff]
  refine exists_congr fun place => and_congr_right fun _ => ?_
  rw [Tree.isDirectoryAt_iff]
  cases t.lookup place with
  | none => simp
  | some entry => cases entry <;> simp [eq_comm]

theorem rootFiles_eq_ok_iff :
    rootFiles t cwd sel root = .ok files ↔ ∃ start, t.realPath false cwd root = .ok start ∧
      filesBelow t cwd sel ((t.entries.length + 1) * (Tree.linkLimit + 1) + 1) 0 start =
        .ok files := bind_eq_ok_iff

/-! ### What is listed -/

/-- A file below a directory as a listing can hold it. -/
structure ListedBelow (t : Tree) (cwd : Location) (sel : Selection) (directory f : Path) :
    Prop where
  between : ∃ middle name,
    f = ⟨directory.anchor, directory.parts ++ (middle ++ [name])⟩ ∧
      (∀ other ∈ middle, other ∉ sel.excluded) ∧
        ∀ other ∈ middle ++ [name], ∃ place, other ∈ t.namesAt place
  isFile : t.isFile cwd f = .ok true
  extension : Text.lower f.suffix ∈ sel.extensions

theorem listedBelow_of_mem_filesBelow (h : filesBelow t cwd sel fuel depth directory = .ok files)
    (hf : f ∈ files) : ListedBelow t cwd sel directory f := by
  induction fuel generalizing depth directory files with
  | zero =>
      obtain rfl : [] = files := Except.ok.inj h
      simp at hf
  | succ fuel ih =>
      rw [filesBelow_succ_eq_ok_iff] at h
      split at h
      · simp [h] at hf
      · obtain ⟨names, parts, hnames, hparts, rfl⟩ := h
        obtain ⟨found, hfound, hf⟩ := List.mem_flatten.1 hf
        obtain ⟨name, hname, hin⟩ := (mem_of_mapM_eq_ok hparts).1 hfound
        obtain ⟨place, -, -, rfl⟩ := Tree.list_eq_ok_iff.1 hnames
        rcases filesIn_eq_ok_iff.1 hin with ⟨-, hbelow⟩ | ⟨-, isFile, hfile, rfl⟩
        · split at hbelow
          · simp [hbelow] at hf
          · next hentered =>
            obtain ⟨⟨middle, last, rfl, hmiddle, hthere⟩, hfile, hextension⟩ := ih hbelow hf
            have hfirst : name ∉ sel.excluded := by simpa using hentered
            refine ⟨⟨name :: middle, last, by simp, List.forall_mem_cons.2 ⟨hfirst, hmiddle⟩, ?_⟩,
              hfile, hextension⟩
            exact List.forall_mem_cons.2 ⟨⟨place, by simpa using hname⟩, hthere⟩
        · split at hf
          · next hlisted =>
            obtain rfl := List.mem_singleton.1 hf
            obtain ⟨rfl, hextension⟩ := hlisted
            exact ⟨⟨[], name, rfl, by simp, by simpa using ⟨place, by simpa using hname⟩⟩, hfile,
              by simpa using hextension⟩
          · simp at hf

/-! ### Growth below an excluded name -/

/-- A name that nothing is listed for makes no difference to a listing. -/
theorem exists_mapM_mergeSort {ε : Type} {f : Text → Except ε (List Path)}
    {parts : List (List Path)}
    (h : (names.mergeSort Text.le).mapM f = .ok parts) (hname : f name = .ok []) :
    ∃ parts', ((names ++ [name]).mergeSort Text.le).mapM f = .ok parts' ∧
      parts'.flatten = parts.flatten := by
  obtain ⟨front, back, hwith, hwithout⟩ := Text.exists_mergeSort_append_singleton names name
  rw [hwithout] at h
  obtain ⟨frontParts, backParts, hfront, hback, rfl⟩ := mapM_append_eq_ok_iff.1 h
  refine ⟨frontParts ++ [] :: backParts, ?_, by simp⟩
  rw [hwith, mapM_append_eq_ok_iff]
  exact ⟨frontParts, [] :: backParts, hfront,
    mapM_cons_eq_ok_iff.2 ⟨[], backParts, hname, hback, rfl⟩, rfl⟩

/-- An entry adds the same files in two trees with the same kinds of things on the way to it, if its
own files are listed alike. -/
theorem filesIn_congr
    (hshape : ∀ place ∈ t.locateLookups .target cwd ⟨directory.anchor, directory.parts ++ [name]⟩,
      t'.shapeAt place = t.shapeAt place)
    (hbelow : t.isDirectory cwd ⟨directory.anchor, directory.parts ++ [name]⟩ = .ok true →
      name ∉ sel.excluded →
        filesBelow t cwd sel fuel (depth + 1) ⟨directory.anchor, directory.parts ++ [name]⟩ =
            .ok found →
          filesBelow t' cwd sel fuel' (depth + 1) ⟨directory.anchor, directory.parts ++ [name]⟩ =
            .ok found)
    (h : filesIn t cwd sel fuel depth directory name = .ok found) :
    filesIn t' cwd sel fuel' depth directory name = .ok found := by
  rw [filesIn_eq_ok_iff] at h ⊢
  rw [Tree.isDirectory_congr hshape, Tree.isFile_congr hshape]
  refine h.imp_left fun ⟨hdir, hfiles⟩ => ⟨hdir, ?_⟩
  split at hfiles
  · next hskip => rwa [if_pos hskip]
  · next hentered =>
    rw [if_neg hentered]
    exact hbelow hdir (by simpa using hentered) hfiles

section Growth

variable (hlinks : t.LinkFree) (hnamed : t.Named) (hgrows : t.GrowsBelow (above ++ [name]) t')

include hgrows in
/-- On the way to what was in a directory before, the kinds of things are as they were. -/
theorem shapeAt_of_mem_namesAt {other : Text} {place : Location}
    (hhere : ¬above ++ [name] <+: here) (hother : other ∈ t.namesAt here)
    (hplace : place <+: here ++ [other]) : t'.shapeAt place = t.shapeAt place := by
  rcases List.prefix_concat_iff.1 hplace with rfl | habove
  · have hthere := (Tree.mem_locations_iff (by simp)).1 (Tree.mem_namesAt_iff.1 hother)
    exact hgrows.extension.kept _ hthere
  · exact hgrows.shapeAt fun hbelow => hhere (hbelow.trans habove)

include hlinks hnamed hgrows in
/-- A listing that starts elsewhere does not see what has come at or below an excluded location.
Both numbers of rounds are as large as the directories are deep. -/
theorem filesBelow_of_growsBelow (hexcluded : name ∈ sel.excluded)
    (htop : t'.isDirectory cwd (.ofLocation (above ++ [name])) = .ok true)
    (hnames : ∀ other ∈ here, Tree.IsEntryName other) (hhere : ¬above ++ [name] <+: here)
    (hpos : 0 < fuel) (hpos' : 0 < fuel') (hfuel : t.entries.length < here.length + fuel)
    (hfuel' : t'.entries.length < here.length + fuel')
    (h : filesBelow t cwd sel fuel depth (.ofLocation here) = .ok files) :
    filesBelow t' cwd sel fuel' depth (.ofLocation here) = .ok files := by
  induction fuel generalizing fuel' depth here files with
  | zero => omega
  | succ fuel ih =>
      obtain ⟨fuel', rfl⟩ := Nat.exists_eq_succ_of_ne_zero hpos'.ne'
      rw [filesBelow_succ_eq_ok_iff] at h ⊢
      split at h
      · next hdeep => rwa [if_pos hdeep]
      next hdeep =>
      rw [if_neg hdeep]
      obtain ⟨sorted, parts, hsorted, hparts, rfl⟩ := h
      obtain ⟨place, hlocate, hdir, rfl⟩ := Tree.list_eq_ok_iff.1 hsorted
      obtain rfl : place = here := by
        rw [hlinks.eq_straight hlocate]
        exact Tree.straight_of_isEntryName hnames []
      have hparts' : ((t.namesAt place).mergeSort Text.le).mapM
          (filesIn t' cwd sel fuel' depth (.ofLocation place)) = .ok parts := by
        refine mapM_eq_ok_of_forall hparts fun other hother found => ?_
        have hother : other ∈ t.namesAt place := by simpa using hother
        have hentry := hnamed.isEntryName_of_mem_namesAt hother
        refine filesIn_congr (fun q hq => shapeAt_of_mem_namesAt hgrows hhere hother
          (hlinks.prefix_of_mem_locateLookups hentry hq)) fun hisdir hentered hbelow => ?_
        have hbelowTop : ¬above ++ [name] <+: place ++ [other] := by
          intro hbegins
          rcases List.prefix_concat_iff.1 hbegins with heq | hbegins
          · obtain ⟨-, rfl⟩ : above = place ∧ name = other := by simpa using heq
            exact hentered hexcluded
          · exact hhere hbegins
        -- a directory that is entered leaves rounds enough, as it has an entry of its own
        have henter := hlinks.enterable_of_isDirectory hentry hisdir
        have henter' : t'.Enterable (place ++ [other]) := fun q hq =>
          hgrows.extension.isDirectoryAt (henter q hq)
        have hdeep := henter.length_le
        have hdeep' := henter'.length_le
        simp only [List.length_append, List.length_singleton] at hdeep hdeep'
        change filesBelow t' cwd sel fuel' (depth + 1) (.ofLocation (place ++ [other])) = _
        exact ih hentry hbelowTop (by omega) (by omega) (by simp; omega) (by simp; omega) hbelow
      have hlist : t'.list cwd (.ofLocation place) =
          .ok ((t'.namesAt place).mergeSort Text.le) :=
        Tree.list_eq_ok_iff.2 ⟨place, hgrows.extension.locate hlocate,
          hgrows.extension.isDirectoryAt hdir, rfl⟩
      rcases hgrows.namesAt_eq_or hhere with hsame | ⟨rfl, hmore⟩
      · exact ⟨_, parts, hsame ▸ hlist, hparts', rfl⟩
      · have hskip : filesIn t' cwd sel fuel' depth (.ofLocation place) name = .ok [] :=
          filesIn_eq_ok_iff.2 (.inl ⟨htop, by simp [hexcluded]⟩)
        obtain ⟨parts', hall, hflatten⟩ := exists_mapM_mergeSort hparts' hskip
        exact ⟨_, parts', hmore ▸ hlist, hall, hflatten.symm⟩

include hlinks hnamed hgrows in
/-- So the files below a directory that is not at or below the location are listed as before. -/
theorem rootFiles_of_growsBelow (hcwd : t.Linkless cwd) (hexcluded : name ∈ sel.excluded)
    (htop : t'.isDirectory cwd (.ofLocation (above ++ [name])) = .ok true) {place : Location}
    (htidy : root.Tidy) (hroot : t.locate .target cwd root = .ok place)
    (hplace : ¬above ++ [name] <+: place) (h : rootFiles t cwd sel root = .ok files) :
    rootFiles t' cwd sel root = .ok files := by
  obtain ⟨start, hstart, hfiles⟩ := rootFiles_eq_ok_iff.1 h
  obtain rfl : Path.ofLocation place = start :=
    Except.ok.inj ((hlinks.realPath_of_locate htidy hroot).symm.trans hstart)
  have hnames := (Tree.linkless_of_locate hcwd hroot (hlinks place)).names
  refine rootFiles_eq_ok_iff.2 ⟨_, ?_, filesBelow_of_growsBelow hlinks hnamed hgrows hexcluded htop
    hnames hplace (by omega) (by omega) (by nlinarith) (by nlinarith) hfiles⟩
  rw [hlinks.realPath_false_eq (hlinks.of_extends hgrows.extension), hstart]

end Growth

end SolidityFlattener
