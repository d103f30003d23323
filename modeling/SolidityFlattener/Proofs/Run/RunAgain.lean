import SolidityFlattener.Proofs.Run.Overwriting

/-!
A run over a directory, and the same run on what it leaves.

Without links and without `..` in the derived places, all that a run over a directory changes lies
at or below the directory `flat` of the working directory. A listing never enters a directory of
that name, so the same files are listed afterwards. If nothing else is looked up there either, they
are planned as before, and writing the same again leaves everything as it is.
-/

namespace SolidityFlattener

variable {t t' u : Tree} {cwd here above : Location} {o : Options} {target : Target} {plan : Plan}
  {steps : List (Target × Plan)} {step : Target × Plan} {files : List Path} {places : List Location}
  {f root : Path} {name sub dir : Text} {place : Placement} {drafted : List Draft}
  {a : CommandLine.Arguments} {r : Registry}

/-! ### What is written -/

/-- Artifacts that go at or below a location, under names of entries. -/
structure Plan.Inside (top : Location) (plan : Plan) : Prop where
  directory : ∃ rest, plan.place.directory = .ofLocation (top ++ rest)
  names : ∀ name ∈ plan.place.directory.parts, Tree.IsEntryName name
  files : ∀ d ∈ plan.files, ∃ last,
    d.path = .ofLocation (plan.place.directory.parts ++ [last]) ∧ Tree.IsEntryName last

theorem inside_of_planFile (hcwd : ∀ name ∈ cwd, Tree.IsEntryName name)
    (hbase : o.baseDir = some (.ofLocation cwd)) (hextension : o.flatExtension = ".sol".toList)
    (hsub : ['.', '.'] ∉ Path.components (Text.forwardSlashes sub)) (hstem : PlainStem f.stem)
    (hdots : f.stem ≠ ['.', '.'])
    (hplan : (planFile t cwd o (derivedFor sub f)).outcome = .ok plan) :
    plan.Inside (cwd ++ ["flat".toList]) := by
  have hpaths := map_path_of_planFile hplan
  rw [artifactPaths_eq_of_plainStem hbase hextension hstem] at hpaths
  obtain ⟨bundle, settings, place, -, -, hplace, rfl⟩ := planFile_eq_ok_iff.1 hplan
  obtain rfl := Except.ok.inj ((placementOf_eq_of_plainStem hbase hstem).symm.trans hplace)
  have hcomponents : ∀ {t : Text}, ['.', '.'] ∉ Path.components t →
      ∀ name ∈ Path.components t, Tree.IsEntryName name := fun hnot name hname =>
    ⟨Path.tidy_ofText _ name hname, fun heq => hnot (heq ▸ hname)⟩
  have hlast : ['.', '.'] ∉ Path.components f.stem := by
    rw [Path.components_of_not_mem hstem.2.1]
    split
    · simpa using hdots.symm
    · simp
  refine ⟨⟨Path.components (Text.forwardSlashes sub) ++ Path.components f.stem, ?_⟩, ?_, ?_⟩
  · simp [derivedParts]
  · have hflat : Tree.IsEntryName "flat".toList := ⟨by decide, by decide⟩
    simp only [Path.ofLocation, derivedParts, List.mem_append, List.mem_cons]
    rintro name (hname | rfl | hname | hname)
    · exact hcwd name hname
    · exact hflat
    · exact hcomponents hsub name hname
    · exact hcomponents hlast name hname
  · intro d hd
    have hpath := List.mem_map_of_mem (f := Draft.path) hd
    rw [hpaths] at hpath
    obtain ⟨ending, hending, hpath⟩ := List.mem_map.1 hpath
    exact ⟨f.stem ++ ending, hpath.symm, isEntryName_append hending⟩

theorem appends_writeDrafts (h : writeDrafts t cwd drafted = (t', .ok ())) : t.Appends t' := by
  induction drafted generalizing t with
  | nil =>
      obtain rfl : t = t' := (Prod.mk.inj h).1
      exact .refl t
  | cons d rest ih =>
      obtain ⟨written, hwritten, h⟩ := writeDrafts_cons_eq_ok_iff.1 h
      exact (Tree.appends_write hwritten).trans (ih h)

theorem appends_writeAll (h : writeAll t cwd place drafted = (t', .ok ())) : t.Appends t' := by
  obtain ⟨made, hmade, hdrafts⟩ := writeAll_eq_ok_iff.1 h
  exact (Tree.appends_makeDirectories hmade).trans (appends_writeDrafts hdrafts)

section Inside

variable (hlinks : t.LinkFree) (hplain : t.Plain above) (hcwd : t.Linkless cwd)

include hlinks hplain hcwd in
theorem growsBelow_writeAll (hinside : plan.Inside (above ++ [name]))
    (h : writeAll t cwd plan.place plan.files = (t', .ok ())) :
    t.GrowsBelow (above ++ [name]) t' := by
  obtain ⟨rest, hdirectory⟩ := hinside.directory
  refine .of_frame (frame_writeAll hcwd h) (appends_writeAll h) hlinks hplain
    (by simpa using hdirectory) hinside.names fun p hp => ?_
  obtain ⟨d, hd, rfl⟩ := List.mem_map.1 hp
  exact hinside.files d hd

include hlinks hplain hcwd in
theorem Written.growsBelow (h : Written cwd o t steps t')
    (hinside : ∀ step ∈ steps, step.2.Inside (above ++ [name])) :
    t.GrowsBelow (above ++ [name]) t' := by
  induction h with
  | nil => exact .refl _ _
  | @cons t u t' target plan steps _ hwrite _ ih =>
      obtain ⟨hfirst, hrest⟩ := List.forall_mem_cons.1 hinside
      have hgrown := growsBelow_writeAll hlinks hplain hcwd hfirst hwrite
      exact hgrown.trans (ih (hlinks.of_extends hgrown.extension) (hgrown.extension.plain hplain)
        (hgrown.extension.linkless hcwd) hrest)

include hcwd in
/-- The location is a directory then. -/
theorem Written.isDirectory_top (h : Written cwd o t steps t') (hstep : step ∈ steps)
    (hinside : step.2.Inside (above ++ [name])) :
    t'.isDirectory cwd (.ofLocation (above ++ [name])) = .ok true := by
  obtain ⟨before, after, rfl⟩ := List.append_of_mem hstep
  obtain ⟨_, _, _, hplan, -⟩ := h.split
  obtain ⟨d, hd, last, -, hpath⟩ := draftedInside_of_plan hplan
  obtain ⟨front, back, hfiles⟩ := List.append_of_mem hd
  obtain ⟨_, _, -, hlocate, -⟩ := h.exists_file hcwd hfiles
  obtain ⟨rest, hdirectory⟩ := hinside.directory
  rw [hpath, hdirectory] at hlocate
  simp only [Path.ofLocation, List.append_assoc (above ++ [name])] at hlocate
  obtain ⟨middle, hmiddle, hdir⟩ := Tree.exists_locate_above hlocate (by simp)
  exact Tree.isDirectory_eq_ok_true_iff.2 ⟨middle, hmiddle, hdir⟩

end Inside

/-! ### What is read -/

/-- A location that is looked up for an import that the search from a file comes to: the way to the
file itself does not count. -/
def ImportLookup (t : Tree) (cwd : Location) (o : Options) (file : Path) (place : Location) :
    Prop :=
  ¬place <+: file.parts ∧ ∃ packageRoot path q, packageRootOf t cwd o = .ok packageRoot ∧
    t.realPath true cwd file = .ok path ∧
      Site.Meets ⟨t, cwd, packageRoot⟩ Source.byLines path q ∧
        Site.LooksUp ⟨t, cwd, packageRoot⟩ Source.byLines q place

theorem prefix_of_mem_upward {names : List Text} (h : above ∈ upward names) :
    above <+: names.reverse := by
  induction names with
  | nil => simp_all [upward]
  | cons name rest ih =>
      rcases List.mem_cons.1 h with rfl | h
      · exact List.prefix_refl _
      · rw [List.reverse_cons]
        exact (ih h).trans (List.prefix_append _ _)

section Reading

variable (hlinks : t.LinkFree) (hgrows : t.GrowsBelow (cwd ++ ["flat".toList]) u)

include hlinks hgrows in
/-- No package directory is looked for below. -/
theorem firstPackageRoot_of_growsBelow (hcwd : ∀ name ∈ cwd, Tree.IsEntryName name)
    (hplaces : ∀ above ∈ places, above <+: cwd) :
    firstPackageRoot u cwd places = firstPackageRoot t cwd places := by
  induction places with
  | nil => rfl
  | cons above rest ih =>
      obtain ⟨habove, hrest⟩ := List.forall_mem_cons.1 hplaces
      have hnames : ∀ name ∈ above ++ [packageDirectory], Tree.IsEntryName name := by
        have hpackage : Tree.IsEntryName packageDirectory := ⟨by decide, by decide⟩
        intro name hname
        rcases List.mem_append.1 hname with hname | hname
        · exact hcwd name (habove.subset hname)
        · rwa [List.mem_singleton.1 hname]
      have hnot : ¬cwd ++ ["flat".toList] <+: above ++ [packageDirectory] := by
        intro hbelow
        rcases List.prefix_concat_iff.1 hbelow with heq | hbelow
        · have hname := (List.append_inj' heq rfl).2
          revert hname
          decide
        · have hlength := (hbelow.trans habove).length_le
          simp at hlength
      have hshape : ∀ q ∈ t.locateLookups .target cwd (.ofLocation (above ++ [packageDirectory])),
          u.shapeAt q = t.shapeAt q := fun q hq =>
        hgrows.shapeAt fun hbelow =>
          hnot (hbelow.trans (hlinks.prefix_of_mem_locateLookups hnames hq))
      rw [firstPackageRoot, firstPackageRoot, Tree.isDirectory_congr hshape,
        hlinks.realPath_false_eq (hlinks.of_extends hgrows.extension), ih hrest]

include hlinks hgrows in
theorem packageRootOf_of_growsBelow (hplain : t.Plain cwd) (hcwd : t.Linkless cwd)
    (hbase : o.baseDir = some (.ofLocation cwd)) :
    packageRootOf u cwd o = packageRootOf t cwd o := by
  have hreal := hlinks.realPath_false_eq (hlinks.of_extends hgrows.extension) cwd
  unfold packageRootOf
  cases o.packageRoot with
  | some path => simp only [hreal]
  | none =>
      simp only [hbase, Option.getD_some, findPackageRoot, hreal, hplain.realPath_ofLocation]
      refine firstPackageRoot_of_growsBelow hlinks hgrows hcwd.names fun above habove => ?_
      simpa [Path.ofLocation] using prefix_of_mem_upward habove

theorem labelBase_of_linkFree (h : t.LinkFree) (h' : u.LinkFree) :
    labelBase u cwd o root r = labelBase t cwd o root r := by
  unfold labelBase
  simp only [h.realPath_false_eq h']

include hlinks hgrows in
/-- A file is planned alike on a tree that has grown where nothing is looked up for it. -/
theorem planFile_of_growsBelow (hsound : Site.Sound ⟨t, cwd, none⟩)
    (hbase : o.baseDir = some (.ofLocation cwd)) (hfile : target.file = .ofLocation here)
    (hnames : ∀ name ∈ here, Tree.IsEntryName name) (hhere : ¬cwd ++ ["flat".toList] <+: here)
    (himports : ∀ place, ImportLookup t cwd o target.file place →
      ¬cwd ++ ["flat".toList] <+: place)
    (hsettings : ∀ place ∈ settingsLookups t cwd o, ¬cwd ++ ["flat".toList] <+: place) :
    planFile u cwd o target = planFile t cwd o target := by
  refine planFile_congr_of_source ?_ fun _ _ _ _ =>
    compilerSettings_congr fun place hplace => hgrows.elsewhere place (hsettings place hplace)
  refine flattenSource_congr hsound (hsound.extends hgrows.extension)
    (packageRootOf_of_growsBelow hlinks hgrows (hsound.plain_origin Path.here) hsound.linkless
      hbase) ?_ ?_ fun _ _ _ _ _ _ _ =>
        labelBase_of_linkFree hlinks (hlinks.of_extends hgrows.extension)
  · intro _ _
    rw [hfile]
    refine Tree.realPath_congr hgrows.extension.links fun place hplace => hgrows.shapeAt ?_
    exact fun hbelow => hhere (hbelow.trans (hlinks.prefix_of_mem_realPathLookups hnames hplace))
  · intro packageRoot path hpackage hpath q hmeets depth
    have hlooked : ∀ place, Site.LooksUp ⟨t, cwd, packageRoot⟩ Source.byLines q place →
        ¬cwd ++ ["flat".toList] <+: place := by
      intro place hplace hbelow
      refine himports place ⟨fun hway => hhere (hbelow.trans ?_), packageRoot, path, q, hpackage,
        hpath, hmeets, hplace⟩ hbelow
      rwa [hfile] at hway
    refine Site.loadNode_congr hgrows.extension.links
      (fun place hplace => hgrows.shapeAt (hlooked place hplace))
      (fun place hplace => hgrows.elsewhere place (hlooked place ?_)) depth
    exact .text (Tree.mem_locateLookups hplace)

end Reading

/-- Nothing is looked up for the imports of a file that has none. -/
theorem not_importLookup_of_lone {text : Text} {entry : Location} (hlinks : t.LinkFree)
    (hnames : ∀ name ∈ here, Tree.IsEntryName name)
    (hreal : t.realPath true cwd (.ofLocation here) = .ok (.ofLocation here))
    (htext : t.readText cwd (.ofLocation here) = .ok text)
    (hspecifiers : (Source.byLines.scan text).specifiers = []) :
    ¬ImportLookup t cwd o (.ofLocation here) entry := by
  rintro ⟨hway, packageRoot, path, q, -, hpath, hmeets, hlooked⟩
  obtain rfl : Path.ofLocation here = path := Except.ok.inj (hreal.symm.trans hpath)
  have hlone : ∀ next, ¬Site.ImportsFile ⟨t, cwd, packageRoot⟩ Source.byLines
      (.ofLocation here) next := by
    rintro next ⟨other, hother, specifier, hmem, -⟩
    obtain rfl : text = other := Except.ok.inj (htext.symm.trans hother)
    simp [hspecifiers] at hmem
  obtain rfl : q = .ofLocation here := by
    rcases Relation.ReflTransGen.cases_head hmeets.reached with heq | ⟨next, hnext, -⟩
    · exact heq.symm
    · exact absurd hnext (hlone next)
  have huntried : ∀ specifier, ¬Site.Tries ⟨t, cwd, packageRoot⟩ Source.byLines
      (.ofLocation here) specifier := by
    rintro specifier ⟨other, before, after, hother, hsplit, -⟩
    obtain rfl : text = other := Except.ok.inj (htext.symm.trans hother)
    simp [hspecifiers] at hsplit
  cases hlooked with
  | text hplace => exact hway (hlinks.prefix_of_mem_locateLookups hnames hplace)
  | candidate htries => exact huntried _ htries
  | target htries => exact huntried _ htries

/-! ### What is listed -/

/-- What is listed below a directory that is not at or below `flat` is not there either. -/
theorem ListedBelow.not_below (h : ListedBelow t cwd .default (.ofLocation above) f)
    (hnamed : t.Named) (hnames : ∀ name ∈ above, Tree.IsEntryName name)
    (habove : ¬here ++ ["flat".toList] <+: above) :
    ∃ found, f = .ofLocation found ∧ (∀ name ∈ found, Tree.IsEntryName name) ∧
      ¬here ++ ["flat".toList] <+: found := by
  obtain ⟨middle, name, rfl, hmiddle, hthere⟩ := h.between
  refine ⟨above ++ (middle ++ [name]), rfl, ?_, fun hbelow => ?_⟩
  · intro other hother
    rcases List.mem_append.1 hother with hother | hother
    · exact hnames other hother
    · obtain ⟨place, hplace⟩ := hthere other hother
      exact hnamed.isEntryName_of_mem_namesAt hplace other (by simp)
  -- the name would be that of a directory that is entered, or that of the file
  · have hshort : above <+: here := by
      rcases List.prefix_or_prefix_of_prefix hbelow (List.prefix_append _ _) with hlong | hshort
      · exact absurd hlong habove
      · rcases List.prefix_concat_iff.1 hshort with rfl | hshort
        · exact absurd (List.prefix_refl _) habove
        · exact hshort
    obtain ⟨rest, rfl⟩ := hshort
    rw [List.append_assoc, List.prefix_append_right_inj, List.prefix_concat_iff] at hbelow
    rcases hbelow with heq | hbelow
    · obtain rfl : "flat".toList = name := List.singleton_inj.1 (List.append_inj' heq rfl).2
      have hextension := h.extension
      rw [← List.append_assoc, Path.suffix, Path.ofLocation, Path.name_append_singleton]
        at hextension
      revert hextension
      decide
    · exact hmiddle "flat".toList (hbelow.subset (by simp)) (by decide)

namespace CommandLine

section Again

variable (hsound : Site.Sound ⟨t, cwd, none⟩) (hslashless : t.Slashless) (hlinks : t.LinkFree)
  (hsub : ['.', '.'] ∉ Path.components (Text.forwardSlashes sub))
  (hnames : ∀ f ∈ files, '\\' ∉ f.name ∧ f.stem ≠ ['.', '.'])

include hsound hslashless hsub hnames in
theorem DirectoryRun.inside (r : DirectoryRun t cwd a dir sub files t') (hstep : step ∈ r.steps) :
    step.2.Inside (cwd ++ ["flat".toList]) := by
  obtain ⟨hbase, hextension⟩ := r.baseDir_eq
  obtain ⟨f, hf, hfile⟩ := r.exists_file hstep
  obtain ⟨hback, hdots⟩ := hnames f hf
  have hstem : PlainStem f.stem := by
    refine plainStem_of_mem_rootFiles hsound.named hslashless r.listed hf fun hmem => hback ?_
    exact Path.stem_append_suffix f ▸ List.mem_append_left _ hmem
  obtain ⟨before, after, hsteps⟩ := List.append_of_mem hstep
  obtain ⟨_, _, -, hplan, -⟩ := (hsteps ▸ r.written).split
  exact inside_of_planFile hsound.linkless.names hbase hextension hsub hstem hdots (hfile ▸ hplan)

include hsound hslashless hlinks hsub hnames in
theorem DirectoryRun.growsBelow (r : DirectoryRun t cwd a dir sub files t') :
    t.GrowsBelow (cwd ++ ["flat".toList]) t' :=
  r.written.growsBelow hlinks (hsound.plain_origin Path.here) hsound.linkless fun _ hstep =>
    r.inside hsound hslashless hsub hnames hstep

/-! #### Listing again -/

variable (hdir : ∀ place, t.locate .target cwd (.ofText dir) = .ok place →
    ¬cwd ++ ["flat".toList] <+: place)

include hsound hslashless hlinks hsub hnames hdir in
theorem DirectoryRun.listed_again (r : DirectoryRun t cwd a dir sub files t') :
    rootFiles t' cwd .default (.ofText dir) = .ok files := by
  obtain ⟨place, hlocate, -⟩ := Tree.isDirectory_eq_ok_true_iff.1 r.isDirectory
  obtain ⟨step, hstep⟩ : ∃ step, step ∈ r.steps := by
    refine List.exists_mem_of_ne_nil _ fun hnil => r.files_ne ?_
    simpa [hnil] using r.targets_eq.symm
  exact rootFiles_of_growsBelow hlinks hsound.named
    (r.growsBelow hsound hslashless hlinks hsub hnames) hsound.linkless (by decide)
    (r.written.isDirectory_top hsound.linkless hstep
      (r.inside hsound hslashless hsub hnames hstep))
    (Path.tidy_ofText dir) hlocate (hdir place hlocate) r.listed

include hsound hlinks hdir in
theorem DirectoryRun.not_below (r : DirectoryRun t cwd a dir sub files t') (hf : f ∈ files) :
    ∃ found, f = .ofLocation found ∧ (∀ name ∈ found, Tree.IsEntryName name) ∧
      ¬cwd ++ ["flat".toList] <+: found := by
  obtain ⟨place, hlocate, -⟩ := Tree.isDirectory_eq_ok_true_iff.1 r.isDirectory
  obtain ⟨start, hstart, hbelow⟩ := rootFiles_eq_ok_iff.1 r.listed
  obtain rfl : Path.ofLocation place = start := Except.ok.inj
    ((hlinks.realPath_of_locate (Path.tidy_ofText dir) hlocate).symm.trans hstart)
  exact (listedBelow_of_mem_filesBelow hbelow hf).not_below hsound.named
    (Tree.linkless_of_locate hsound.linkless hlocate (hlinks place)).names (hdir place hlocate)

/-! #### Planning again -/

include hsound hslashless hlinks hsub hnames hdir in
/-- What is planned does not depend on what has been written already. -/
theorem DirectoryRun.planned (r : DirectoryRun t cwd a dir sub files t')
    (himports : ∀ f ∈ files, ∀ place, ImportLookup t cwd r.options f place →
      ¬cwd ++ ["flat".toList] <+: place)
    (hsettings : ∀ place ∈ settingsLookups t cwd r.options, ¬cwd ++ ["flat".toList] <+: place)
    (hgrows : t.GrowsBelow (cwd ++ ["flat".toList]) u) (hstep : step ∈ r.steps) :
    (planFile u cwd r.options step.1).outcome = .ok step.2 := by
  obtain ⟨f, hf, hfile⟩ := r.exists_file hstep
  obtain ⟨found, hfound, hentries, hnot⟩ := r.not_below hsound hlinks hdir hf
  have hsame : ∀ {u}, t.GrowsBelow (cwd ++ ["flat".toList]) u →
      planFile u cwd r.options step.1 = planFile t cwd r.options step.1 := by
    intro u hgrows
    rw [← hfile]
    exact planFile_of_growsBelow hlinks hgrows hsound r.baseDir_eq.1 hfound hentries hnot
      (himports f hf) hsettings
  obtain ⟨before, after, hsteps⟩ := List.append_of_mem hstep
  obtain ⟨turn, _, hbefore, hplan, -⟩ := (hsteps ▸ r.written).split
  have hturn : t.GrowsBelow (cwd ++ ["flat".toList]) turn :=
    hbefore.growsBelow hlinks (hsound.plain_origin Path.here) hsound.linkless fun _ hmem =>
      r.inside hsound hslashless hsub hnames (hsteps ▸ List.mem_append_left _ hmem)
  rw [hsame hgrows, ← hsame hturn, hplan]

include hsound hslashless hlinks hsub hnames hdir in
theorem DirectoryRun.exists_again (r : DirectoryRun t cwd a dir sub files t')
    (himports : ∀ f ∈ files, ∀ place, ImportLookup t cwd r.options f place →
      ¬cwd ++ ["flat".toList] <+: place)
    (hsettings : ∀ place ∈ settingsLookups t cwd r.options, ¬cwd ++ ["flat".toList] <+: place) :
    ∃ t'', Nonempty (DirectoryRun t' cwd a dir sub files t'') ∧
      ∀ place, t''.lookup place = t'.lookup place := by
  have hgrown := r.growsBelow hsound hslashless hlinks hsub hnames
  obtain ⟨t'', hwritten⟩ := r.written.exists_again (q := t.GrowsBelow (cwd ++ ["flat".toList]))
    hsound.linkless
    (fun u hu step hstep => r.planned hsound hslashless hlinks hsub hnames hdir himports hsettings
      hu hstep)
    (fun u u' hu step hstep hwrite => hu.trans <| growsBelow_writeAll
      (hlinks.of_extends hu.extension) (hu.extension.plain (hsound.plain_origin Path.here))
      (hu.extension.linkless hsound.linkless) (r.inside hsound hslashless hsub hnames hstep) hwrite)
    hgrown
  obtain ⟨place, hlocate, hthere⟩ := Tree.isDirectory_eq_ok_true_iff.1 r.isDirectory
  refine ⟨t'', ⟨{ r with
    isDirectory := Tree.isDirectory_eq_ok_true_iff.2
      ⟨place, hgrown.extension.locate hlocate, hgrown.extension.isDirectoryAt hthere⟩
    listed := r.listed_again hsound hslashless hlinks hsub hnames hdir
    written := hwritten }⟩, r.written.lookup_again hwritten hsound.linkless⟩

end Again

/-- A run over a directory that answers zero, on a tree without links that a system can offer. The
directory is not at or below `flat` in the working directory, the subdirectory that is asked for has
no component `..`, and neither does a listed file have that for a stem or a backslash in its name.
Then the same files are listed in the same order afterwards. If besides nothing is looked up at or
below `flat` for their imports or for the compiler configuration, the same run answers zero once
more and leaves everything as it is. -/
theorem run_again_changes_nothing (hsound : Site.Sound ⟨t, cwd, none⟩) (hslashless : t.Slashless)
    (hlinks : t.LinkFree) (hargs : OverDirectory a dir sub)
    (hdir : ∀ place, t.locate .target cwd (.ofText dir) = .ok place →
      ¬cwd ++ ["flat".toList] <+: place)
    (hsub : ['.', '.'] ∉ Path.components (Text.forwardSlashes sub))
    (hfiles : rootFiles t cwd .default (.ofText dir) = .ok files)
    (hnames : ∀ f ∈ files, '\\' ∉ f.name ∧ f.stem ≠ ['.', '.'])
    (hrun : (run t cwd a).2.outcome = .ok 0) :
    rootFiles (run t cwd a).1 cwd .default (.ofText dir) = .ok files ∧
      ∀ o, optionsOf cwd a ⟨files.map (derivedFor sub), .null, none⟩ = .ok o →
        (∀ f ∈ files, ∀ place, ImportLookup t cwd o f place →
          ¬cwd ++ ["flat".toList] <+: place) →
        (∀ place ∈ settingsLookups t cwd o, ¬cwd ++ ["flat".toList] <+: place) →
          (run (run t cwd a).1 cwd a).2.outcome = .ok 0 ∧
            ∀ place, (run (run t cwd a).1 cwd a).1.lookup place = (run t cwd a).1.lookup place := by
  obtain ⟨r⟩ := nonempty_directoryRun_of_run hargs hfiles hrun
  refine ⟨r.listed_again hsound hslashless hlinks hsub hnames hdir, ?_⟩
  intro o ho himports hsettings
  obtain rfl : r.options = o := Except.ok.inj (r.options_eq.symm.trans ho)
  obtain ⟨t'', ⟨r'⟩, hsame⟩ :=
    r.exists_again hsound hslashless hlinks hsub hnames hdir himports hsettings
  obtain ⟨htree, hagain⟩ := r'.run_eq hargs
  exact ⟨hagain, fun place => by rw [htree, hsame]⟩

theorem twins_again_change_nothing :
    rootFiles (run twinTree [] twinArguments).1 [] .default (.ofText ".".toList) =
        .ok [twinFile "a", twinFile "b"] ∧
      (run (run twinTree [] twinArguments).1 [] twinArguments).2.outcome = .ok 0 ∧
        ∀ place, (run (run twinTree [] twinArguments).1 [] twinArguments).1.lookup place =
          (run twinTree [] twinArguments).1.lookup place := by
  obtain ⟨_, _, _, ⟨r⟩⟩ := exists_directoryRun_twins
  have hlinks : twinTree.LinkFree := Tree.linkFree_of_links_eq_nil rfl
  have hlocate : twinTree.locate .target [] (.ofText ".".toList) = .ok [] := by cbv
  have hdir : ∀ place, twinTree.locate .target [] (.ofText ".".toList) = .ok place →
      ¬[] ++ ["flat".toList] <+: place := by
    intro place hplace
    obtain rfl := Except.ok.inj (hlocate.symm.trans hplace)
    decide
  obtain ⟨hlisted, hagain⟩ := run_again_changes_nothing twins_sound twins_slashless hlinks
    twinArguments_overDirectory hdir (by decide) rootFiles_twins (by decide)
    (r.run_eq twinArguments_overDirectory).2
  refine ⟨hlisted, hagain (.default []) rfl ?_ ?_⟩
  · intro f hf place hplace
    rcases List.mem_pair.1 hf with rfl | rfl
    · exact absurd hplace (not_importLookup_of_lone hlinks (by simp [Tree.IsEntryName]; decide)
        (by cbv) (by cbv) (by decide +kernel))
    · exact absurd hplace (not_importLookup_of_lone hlinks (by simp [Tree.IsEntryName]; decide)
        (by cbv) (by cbv) (by decide +kernel))
  · have hlooked : settingsLookups twinTree [] (.default []) =
        [[], ["compiler_config.json".toList]] := by cbv
    rw [hlooked]
    decide

end CommandLine

end SolidityFlattener
