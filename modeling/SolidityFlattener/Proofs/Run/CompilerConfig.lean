import SolidityFlattener.Proofs.Run.ExitStatus
import SolidityFlattener.Proofs.Tree.Outlines

/-!
The compiler configuration of a target.

A configuration gives settings if it is a file of text in JSON, an object with an object under
`settings`. Then these are in force as they are, and otherwise the default ones of a version are.
Nothing that a file can hold makes the configuration fail, so a file that is no source of a target
matters to the settings of the target at most, and never to whether the target is done.
-/

namespace SolidityFlattener

variable {t b u : Tree} {cwd place : Location} {o : Options} {target : Target} {path : Path}
  {text : Text} {content : ByteArray} {files files' : List Draft}
  {settings : Option Value} {fields : List (Scalar × Value)}
  {directories written : Path → Prop}

/-! ### Settings in force -/

/-- The configuration at a path gives settings. -/
def GivesSettings (t : Tree) (cwd : Location) (path : Path) (fields : List (Scalar × Value)) :
    Prop :=
  ∃ text top, t.readText cwd path = .ok text ∧ Json.read? text = some (.object top) ∧
    (Value.object top).field "settings" = .object fields

/-- The settings in force with the configuration at a path: those that it gives, taken whole, or
else the default ones of a version. -/
def InForce (t : Tree) (cwd : Location) (path : Path) (version : EvmVersion) (settings : Value) :
    Prop :=
  (∃ fields, GivesSettings t cwd path fields ∧ settings = .object fields) ∨
    (∀ fields, ¬GivesSettings t cwd path fields) ∧
      settings = Bundle.defaultSettings version.name

theorem GivesSettings.isFile (h : GivesSettings t cwd path fields) :
    t.isFile cwd path = .ok true := by
  obtain ⟨text, top, htext, -⟩ := h
  obtain ⟨place, content, hplace, hfile⟩ := Tree.exists_file_of_readText htext
  exact Tree.isFile_of_lookup hplace hfile

theorem settingsOfText_eq_ok_some_iff {v : Value} :
    settingsOfText text = .ok (some v) ↔
      ∃ top fields, Json.read? text = some (.object top) ∧
        (Value.object top).field "settings" = .object fields ∧ v = .object fields := by
  unfold settingsOfText
  rcases Json.read? text with _ | (_ | _ | top)
  · simp
  · simp
  · simp
  · simp only [Option.some.injEq, Value.object.injEq, exists_and_left, exists_eq_left']
    rcases hsettings : (Value.object top).field "settings" with scalar | _ | fields
    · cases scalar <;> simp
    · simp
    · simp [eq_comm]

/-- What is taken from a file are the settings that it gives. -/
theorem settingsOfFile_eq_some_iff {v : Value} :
    (settingsOfFile t cwd path).toOption.join = some v ↔
      ∃ fields, GivesSettings t cwd path fields ∧ v = .object fields := by
  have htaken : (settingsOfFile t cwd path).toOption.join = some v ↔
      settingsOfFile t cwd path = .ok (some v) := by
    cases settingsOfFile t cwd path <;> simp [Except.toOption]
  rw [htaken]
  unfold settingsOfFile GivesSettings
  cases t.readText cwd path with
  | error fault => simp
  | ok text =>
      simp only [settingsOfText_eq_ok_some_iff, Except.ok.injEq]
      constructor
      · rintro ⟨top, fields, htop, hfields, rfl⟩
        exact ⟨fields, ⟨text, top, rfl, htop, hfields⟩, rfl⟩
      · rintro ⟨fields, ⟨_, top, rfl, htop, hfields⟩, rfl⟩
        exact ⟨top, fields, htop, hfields, rfl⟩

/-- Reading the configuration fails only where the system cannot tell whether it is a file. -/
theorem outcome_compilerSettings (hpath : compilerConfigPath o = .ok (some path)) :
    (compilerSettings t cwd o).outcome =
      ((t.isFile cwd path).mapError .system).map fun _ =>
        (settingsOfFile t cwd path).toOption.join := by
  have hnone : t.isFile cwd path = .ok false →
      (settingsOfFile t cwd path).toOption.join = none := by
    intro hfile
    rw [Option.eq_none_iff_forall_ne_some]
    intro v hv
    obtain ⟨fields, hgives, -⟩ := settingsOfFile_eq_some_iff.1 hv
    cases hgives.isFile.symm.trans hfile
  unfold compilerSettings
  rw [Trace.outcome_bind, Trace.outcome_ofExcept, hpath]
  change (Trace.ofExcept ((t.isFile cwd path).mapError .system) >>= _ : Trace _).outcome = _
  rw [Trace.outcome_bind, Trace.outcome_ofExcept]
  cases hfile : t.isFile cwd path with
  | error fault => rfl
  | ok found =>
      cases found with
      | false => exact congrArg Except.ok (hnone hfile).symm
      | true =>
          cases settingsOfFile t cwd path with
          | error fault => rfl
          | ok settings => rfl

/-- Nothing that a file holds keeps the settings from being taken. -/
theorem exists_compilerSettings (hpath : compilerConfigPath o = .ok (some path))
    (hfile : t.isFile cwd path = .ok true) :
    ∃ settings, (compilerSettings t cwd o).outcome = .ok settings := by
  rw [outcome_compilerSettings hpath, hfile]
  exact ⟨_, rfl⟩

/-- The settings that a target is planned with are those in force. -/
theorem inForce_of_compilerSettings (hpath : compilerConfigPath o = .ok (some path))
    (h : (compilerSettings t cwd o).outcome = .ok settings) (version : EvmVersion) :
    InForce t cwd path version (settings.getD (Bundle.defaultSettings version.name)) := by
  rw [outcome_compilerSettings hpath] at h
  obtain rfl : (settingsOfFile t cwd path).toOption.join = settings := by
    cases hfile : t.isFile cwd path with
    | error fault =>
        rw [hfile] at h
        cases h
    | ok found =>
        rw [hfile] at h
        exact Except.ok.inj h
  cases hgiven : (settingsOfFile t cwd path).toOption.join with
  | none =>
      refine .inr ⟨fun fields hfields => ?_, rfl⟩
      cases hgiven.symm.trans (settingsOfFile_eq_some_iff.2 ⟨fields, hfields, rfl⟩)
  | some v => exact .inl (settingsOfFile_eq_some_iff.1 hgiven)

theorem GivesSettings.outcome_compilerSettings (h : GivesSettings t cwd path fields)
    (hpath : compilerConfigPath o = .ok (some path)) :
    (compilerSettings t cwd o).outcome = .ok (some (.object fields)) := by
  rw [SolidityFlattener.outcome_compilerSettings hpath, h.isFile,
    settingsOfFile_eq_some_iff.2 ⟨fields, h, rfl⟩]
  rfl

/-- The settings that a configuration gives are the only ones in force. -/
theorem InForce.eq_of_gives {version : EvmVersion} {v : Value}
    (h : InForce t cwd path version v) (hgives : GivesSettings t cwd path fields) :
    v = .object fields := by
  rcases h with hgiven | ⟨hnone, -⟩
  · have hv := settingsOfFile_eq_some_iff.2 hgiven
    rw [settingsOfFile_eq_some_iff.2 ⟨fields, hgives, rfl⟩] at hv
    exact (Option.some.inj hv).symm
  · exact absurd hgives (hnone fields)

/-! ### The same configuration on two trees -/

theorem givesSettings_congr (h : u.readText cwd path = t.readText cwd path) :
    GivesSettings u cwd path fields ↔ GivesSettings t cwd path fields := by
  unfold GivesSettings
  rw [h]

/-- What a configuration gives does not change while its file is not written, unless its path leads
to a file only by way of a directory that was made. -/
theorem givesSettings_iff_of_frame (hframe : Tree.Frame cwd directories written t u)
    (hkept : ∀ p, written p → ∀ place, u.locate .target cwd p = .ok place →
      u.locate .target cwd path ≠ .ok place)
    (hled : u.isFile cwd path = .ok true → ∃ place, t.locate .target cwd path = .ok place) :
    GivesSettings u cwd path fields ↔ GivesSettings t cwd path fields := by
  have hsame : ∀ {place}, t.locate .target cwd path = .ok place →
      u.lookup place = t.lookup place → u.readText cwd path = t.readText cwd path := by
    intro place hplace hlookup
    simp [Tree.readText, Tree.readBytes, Tree.find, hplace, hframe.extension.locate hplace,
      hlookup, bind, Except.bind]
  constructor
  · intro hgives
    obtain ⟨place, hplace⟩ := hled hgives.isFile
    refine (givesSettings_congr (hsame hplace ?_)).1 hgives
    have hplaceU := hframe.extension.locate hplace
    obtain ⟨_, _, htext, -⟩ := hgives
    obtain ⟨found, content, hfound, hfile⟩ := Tree.exists_file_of_readText htext
    obtain rfl := Except.ok.inj (hplaceU.symm.trans hfound)
    -- the file was there before, or it was written
    by_contra hchanged
    rcases hframe.changed place hchanged with ⟨hdir, -⟩ | ⟨-, p, hp, hlocate⟩
    · cases hfile.symm.trans hdir
    · exact hkept p hp place hlocate hplaceU
  · intro hgives
    obtain ⟨_, _, htext, -⟩ := id hgives
    obtain ⟨place, content, hplace, hfile⟩ := Tree.exists_file_of_readText htext
    refine (givesSettings_congr (hsame hplace ?_)).2 hgives
    rw [hfile]
    exact hframe.lookup_file hfile fun p hp hlocate =>
      hkept p hp place hlocate (hframe.extension.locate hplace)

/-- The same settings are in force where the same are given. -/
theorem inForce_congr {version : EvmVersion} {v : Value}
    (h : ∀ fields, GivesSettings u cwd path fields ↔ GivesSettings t cwd path fields) :
    InForce u cwd path version v ↔ InForce t cwd path version v := by
  unfold InForce
  simp only [h]

/-! ### What files hold -/

theorem outcome_writeDrafts_of_outline_eq (h : b.outline = t.outline)
    (hpaths : files'.map Draft.path = files.map Draft.path) :
    (writeDrafts b cwd files').2 = (writeDrafts t cwd files).2 := by
  induction files generalizing t b files' with
  | nil =>
      obtain rfl : files' = [] := by simpa using hpaths
      rfl
  | cons d rest ih =>
      obtain ⟨d', rest', rfl, hpath, hrest⟩ := List.map_eq_cons_iff.1 hpaths
      have hwrite := Tree.map_outline_write h cwd d.path d.text d'.text
      rw [writeDrafts, writeDrafts, hpath]
      cases hfirst : t.write cwd d.path d.text with
      | error fault =>
          rw [hfirst] at hwrite
          rw [map_eq_error_iff.1 hwrite]
      | ok written =>
          rw [hfirst] at hwrite
          obtain ⟨written', hfirst', houtline⟩ := map_eq_ok_iff.1 hwrite
          rw [hfirst']
          exact ih houtline hrest

/-- Whether artifacts can be written does not depend on what files hold, nor on the texts. -/
theorem outcome_writeAll_of_outline_eq {place : Placement} (h : b.outline = t.outline)
    (hpaths : files'.map Draft.path = files.map Draft.path) :
    (writeAll b cwd place files').2 = (writeAll t cwd place files).2 := by
  have hmake := Tree.makeAll_outline b cwd place.directory.anchor place.directory.parts.reverse
  rw [h, Tree.makeAll_outline, Prod.mk.injEq] at hmake
  unfold writeAll Tree.makeDirectories
  simp only [if_true]
  generalize t.makeAll cwd place.directory.anchor place.directory.parts.reverse = x at hmake ⊢
  generalize b.makeAll cwd place.directory.anchor place.directory.parts.reverse = y at hmake ⊢
  obtain ⟨made, outcome⟩ := x
  obtain ⟨made', outcome'⟩ := y
  obtain ⟨houtline, rfl⟩ : made.outline = made'.outline ∧ outcome = outcome' := hmake
  cases outcome with
  | error fault => rfl
  | ok _ => exact outcome_writeDrafts_of_outline_eq houtline.symm hpaths

/-- The search for the imports of a target comes to a location. -/
def Target.ComesTo (t : Tree) (cwd : Location) (o : Options) (target : Target)
    (place : Location) : Prop :=
  ∃ packageRoot path, packageRootOf t cwd o = .ok packageRoot ∧
    t.realPath true cwd target.file = .ok path ∧
      Site.Meets ⟨t, cwd, packageRoot⟩ Source.byLines path (.ofLocation place)

/-- Whether the configuration can be read does not depend on what files hold. -/
theorem map_outcome_compilerSettings (h : b.outline = t.outline) :
    (compilerSettings b cwd o).outcome.map (fun _ => ()) =
      (compilerSettings t cwd o).outcome.map fun _ => () := by
  cases hpath : compilerConfigPath o with
  | error failure =>
      unfold compilerSettings
      rw [hpath]
      rfl
  | ok path? =>
      cases path? with
      | none =>
          unfold compilerSettings
          rw [hpath]
          rfl
      | some path =>
          rw [outcome_compilerSettings hpath, outcome_compilerSettings hpath,
            Tree.isFile_congr fun place _ => Tree.shapeAt_eq_of_outline_eq h place]
          cases t.isFile cwd path <;> rfl

/-- What is known of a plan before it is known what the artifacts hold. -/
def Plan.outline (plan : Plan) : Placement × List Path × Path :=
  (plan.place, plan.files.map Draft.path, plan.result)

section Contents

variable (hsound : Site.Sound ⟨t, cwd, none⟩) (hfile : t.lookup place = some (.file content))
  (hnot : ¬target.ComesTo t cwd o place) (bytes : ByteArray)

include hsound hfile hnot in
theorem map_outline_planFile :
    (planFile (t.insert place (.file bytes)) cwd o target).outcome.map Plan.outline =
      (planFile t cwd o target).outcome.map Plan.outline := by
  have hsource : flattenSource (t.insert place (.file bytes)) cwd o Source.byLines target.file =
      flattenSource t cwd o Source.byLines target.file :=
    flattenSource_insert_file hsound hfile fun packageRoot path hpackageRoot hpath hmeets =>
      absurd ⟨packageRoot, path, hpackageRoot, hpath, hmeets⟩ hnot
  have hsettings : (compilerSettings (t.insert place (.file bytes)) cwd o).outcome.map
      (fun _ => ()) = (compilerSettings t cwd o).outcome.map fun _ => () :=
    map_outcome_compilerSettings (Tree.outline_insert_file hfile bytes)
  unfold planFile
  simp only [Trace.outcome_bind, Trace.outcome_tell, Trace.outcome_ofExcept, hsource]
  -- stage by stage: all values are the same but for the settings, and these are in no outline
  refine map_bind_congr rfl fun _ _ _ _ => map_bind_congr rfl fun _ _ _ _ => ?_
  refine map_bind_congr rfl fun bundle _ hbundle hbundle' => ?_
  obtain rfl := Except.ok.inj (hbundle.symm.trans hbundle')
  refine map_bind_congr rfl fun out _ hout hout' => ?_
  obtain rfl := Except.ok.inj (hout.symm.trans hout')
  refine map_bind_congr hsettings fun _ _ _ _ => map_bind_congr rfl fun text _ htext htext' => ?_
  obtain rfl := Except.ok.inj (htext.symm.trans htext')
  refine map_bind_congr rfl fun place _ hplace hplace' => ?_
  obtain rfl := Except.ok.inj (hplace.symm.trans hplace')
  rfl

include hsound hfile hnot in
/-- A target ends in the same way whatever a file holds that the search for its imports does not
come to. -/
theorem outcome_flattenFile_insert_file :
    (flattenFile (t.insert place (.file bytes)) cwd o target).2.outcome =
      (flattenFile t cwd o target).2.outcome := by
  have hplans := map_outline_planFile hsound hfile hnot bytes
  cases hplan : (planFile t cwd o target).outcome with
  | error failure =>
      rw [hplan] at hplans
      rw [flattenFile_of_not_planned hplan,
        flattenFile_of_not_planned (map_eq_error_iff.1 hplans)]
  | ok plan =>
      rw [hplan] at hplans
      obtain ⟨plan', hplan', houtline⟩ := map_eq_ok_iff.1 hplans
      obtain ⟨hplace, hpaths, hresult⟩ : plan'.place = plan.place ∧
          plan'.files.map Draft.path = plan.files.map Draft.path ∧ plan'.result = plan.result := by
        simpa [Plan.outline] using houtline
      have hwrites : (writeAll (t.insert place (.file bytes)) cwd plan'.place plan'.files).2 =
          (writeAll t cwd plan.place plan.files).2 :=
        hplace ▸ outcome_writeAll_of_outline_eq (Tree.outline_insert_file hfile bytes) hpaths
      rcases hwrite : writeAll t cwd plan.place plan.files with ⟨written, fault | _⟩
      · rw [hwrite] at hwrites
        rw [flattenFile_of_fault hplan hwrite, flattenFile_of_fault hplan' (Prod.ext rfl hwrites)]
      · rw [hwrite] at hwrites
        rw [flattenFile_of_written hplan hwrite,
          flattenFile_of_written hplan' (Prod.ext rfl hwrites), hresult]

end Contents

end SolidityFlattener
