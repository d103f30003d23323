import SolidityFlattener.Proofs.Run.Batches
import SolidityFlattener.Proofs.Run.Reads
import SolidityFlattener.Proofs.Tree.Making

/-!
What flattening one target does to the tree.

Everything that can be refused is refused before the first directory is made, so a failure that
belongs to the target leaves the tree as it was. A target that is done has its artifacts written,
and the tree differs from before only by these and by the directories on the way to them.
-/

namespace SolidityFlattener

variable {t t' : Tree} {cwd : Location} {o : Options} {target : Target} {plan : Plan}
  {result : Path} {place : Placement} {files : List Draft} {failure : Failure}

/-! ### The stages of a target -/

/-- Where the artifacts of a target go. -/
def placementOf (o : Options) (target : Target) : Except Failure Placement := do
  let out ← placeValue target
  let text ← placeText out
  Placement.ofTarget text o.baseDir

theorem planFile_eq_ok_iff :
    (planFile t cwd o target).outcome = .ok plan ↔
      ∃ bundle settings place,
        (flattenSource t cwd o Source.byLines target.file).outcome = .ok bundle ∧
          (compilerSettings t cwd o).outcome = .ok settings ∧ placementOf o target = .ok place ∧
            plan = {
              place := place
              files := drafts bundle place
                (bundle.compilerDocument settings o.evmVersion.name) o.flatExtension
              result := (place.file o.flatExtension).parent } := by
  unfold planFile placementOf
  simp only [Trace.outcome_bind_eq_ok_iff, Trace.outcome_tell, Trace.outcome_ofExcept,
    Trace.outcome_pure, bind_eq_ok_iff, Except.ok.injEq]
  constructor
  · rintro ⟨-, -, -, -, bundle, hbundle, out, hout, settings, hsettings, text, htext, place, hplace,
      rfl⟩
    exact ⟨bundle, settings, place, hbundle, hsettings, ⟨out, hout, text, htext, hplace⟩, rfl⟩
  · rintro ⟨bundle, settings, place, hbundle, hsettings, ⟨out, hout, text, htext, hplace⟩, rfl⟩
    exact ⟨(), trivial, (), trivial, bundle, hbundle, out, hout, settings, hsettings, text, htext,
      place, hplace, rfl⟩

theorem flattenFile_of_written (hplan : (planFile t cwd o target).outcome = .ok plan)
    (hwrite : writeAll t cwd plan.place plan.files = (t', .ok ())) :
    flattenFile t cwd o target =
      (t', ⟨(planFile t cwd o target).records ++ doneRecords o target plan, .ok plan.result⟩) := by
  unfold flattenFile
  simp only [hplan, hwrite]

/-- A target that is planned fails only where the system does. -/
theorem flattenFile_of_fault {fault : Fault} (hplan : (planFile t cwd o target).outcome = .ok plan)
    (hwrite : writeAll t cwd plan.place plan.files = (t', .error fault)) :
    flattenFile t cwd o target =
      (t', ⟨(planFile t cwd o target).records, .error (.system fault)⟩) := by
  unfold flattenFile
  simp only [hplan, hwrite]

/-- Nothing is written of a target that is not planned. -/
theorem flattenFile_of_not_planned (hplan : (planFile t cwd o target).outcome = .error failure) :
    flattenFile t cwd o target = (t, ⟨(planFile t cwd o target).records, .error failure⟩) := by
  unfold flattenFile
  simp only [hplan]

theorem flattenFile_eq_ok_iff :
    (flattenFile t cwd o target).2.outcome = .ok result ↔
      ∃ plan, (planFile t cwd o target).outcome = .ok plan ∧
        writeAll t cwd plan.place plan.files = ((flattenFile t cwd o target).1, .ok ()) ∧
          result = plan.result := by
  cases hplan : (planFile t cwd o target).outcome with
  | error failure => simp [flattenFile_of_not_planned hplan]
  | ok plan =>
      rcases hwrite : writeAll t cwd plan.place plan.files with ⟨written, fault | _⟩
      · simp [flattenFile_of_fault hplan hwrite, hwrite]
      · simp [flattenFile_of_written hplan hwrite, hwrite, eq_comm]

/-- A failure of the target's own comes before anything is written. -/
theorem planFile_of_isOfTarget (h : (flattenFile t cwd o target).2.outcome = .error failure)
    (hfailure : failure.isOfTarget) : (planFile t cwd o target).outcome = .error failure := by
  cases hplan : (planFile t cwd o target).outcome with
  | error other =>
      rw [flattenFile_of_not_planned hplan] at h
      rw [Except.error.inj h]
  | ok plan =>
      rcases hwrite : writeAll t cwd plan.place plan.files with ⟨written, fault | _⟩
      · rw [flattenFile_of_fault hplan hwrite] at h
        obtain rfl := Except.error.inj h
        simp [Failure.isOfTarget] at hfailure
      · rw [flattenFile_of_written hplan hwrite] at h
        cases h

/-! ### What is written -/

theorem writeDrafts_cons_eq_ok_iff {d : Draft} :
    writeDrafts t cwd (d :: files) = (t', .ok ()) ↔
      ∃ written, t.write cwd d.path d.text = .ok written ∧
        writeDrafts written cwd files = (t', .ok ()) := by
  rw [writeDrafts]
  cases t.write cwd d.path d.text <;> simp

theorem frame_writeDrafts {directories : Path → Prop} (hcwd : t.Linkless cwd)
    (h : writeDrafts t cwd files = (t', .ok ())) :
    Tree.Frame cwd directories (fun p => p ∈ files.map Draft.path) t t' := by
  induction files generalizing t with
  | nil =>
      obtain rfl : t = t' := (Prod.mk.inj h).1
      exact .refl t
  | cons d rest ih =>
      obtain ⟨written, hwritten, h⟩ := writeDrafts_cons_eq_ok_iff.1 h
      have hfirst : Tree.Frame cwd directories (fun p => p ∈ (d :: rest).map Draft.path) t
          written := Tree.frame_write hcwd (by simp) hwritten
      have hrest : Tree.Frame cwd directories (fun p => p ∈ (d :: rest).map Draft.path)
          written t' :=
        (ih (hfirst.extension.linkless hcwd) h).mono (fun p hp => hp) fun p hp => by simp_all
      exact hfirst.trans hrest

theorem extends_writeDrafts (hcwd : t.Linkless cwd)
    (h : writeDrafts t cwd files = (t', .ok ())) : t.Extends t' :=
  have hframe : Tree.Frame cwd (fun _ => False) (fun p => p ∈ files.map Draft.path) t t' :=
    frame_writeDrafts hcwd h
  hframe.extension

theorem writeAll_eq_ok_iff :
    writeAll t cwd place files = (t', .ok ()) ↔
      ∃ made, t.makeDirectories cwd place.directory true = (made, .ok ()) ∧
        writeDrafts made cwd files = (t', .ok ()) := by
  unfold writeAll
  rcases t.makeDirectories cwd place.directory true with ⟨made, fault | _⟩ <;> simp

/-- Writing changes directories on the way to the placement, and the files that are drafted. -/
theorem frame_writeAll (hcwd : t.Linkless cwd) (h : writeAll t cwd place files = (t', .ok ())) :
    Tree.Frame cwd (Tree.OnTheWay place.directory) (fun p => p ∈ files.map Draft.path) t t' := by
  obtain ⟨made, hmade, hwritten⟩ := writeAll_eq_ok_iff.1 h
  have hmaking : Tree.Frame cwd (Tree.OnTheWay place.directory)
      (fun p => p ∈ files.map Draft.path) t made := Tree.frame_makeDirectories hcwd hmade
  exact hmaking.trans (frame_writeDrafts (hmaking.extension.linkless hcwd) hwritten)

theorem Site.Sound.linkless {packageRoot : Option Path}
    (hsound : Site.Sound ⟨t, cwd, packageRoot⟩) : t.Linkless cwd :=
  .of_plain (hsound.plain_origin Path.here) hsound.named

/-- A target that is done has changed directories on the way to its placement and its artifacts. -/
theorem frame_flattenFile (hcwd : t.Linkless cwd)
    (h : (flattenFile t cwd o target).2.outcome = .ok result) :
    ∃ place, placementOf o target = .ok place ∧ result = (place.file o.flatExtension).parent ∧
      Tree.Frame cwd (Tree.OnTheWay place.directory)
        (fun p => p ∈ [".info.json".toList, o.flatExtension, ".json".toList].map place.file) t
        (flattenFile t cwd o target).1 := by
  obtain ⟨plan, hplan, hwrite, rfl⟩ := flattenFile_eq_ok_iff.1 h
  obtain ⟨bundle, settings, place, -, -, hplace, rfl⟩ := planFile_eq_ok_iff.1 hplan
  exact ⟨place, hplace, rfl, frame_writeAll hcwd hwrite⟩

/-! ### A target of the trio, and one that is not there -/

section Trio

def trioTarget : Target := ⟨.ofText "A.sol".toList, .ofText "out".toList, .null⟩

def goneTarget : Target := ⟨.ofText "Gone.sol".toList, .ofText "out".toList, .null⟩

def trioPlacement : Placement := ⟨⟨.root, ["out".toList]⟩, "out".toList⟩

theorem placementOf_trio : placementOf (.default []) trioTarget = .ok trioPlacement := by
  cbv

/-- The trio with what is written for its first file. -/
def trioWritten (info flat input : Text) : Tree :=
  (((trioSite.tree.insert ["out".toList] .directory).insert
    ["out".toList, "out.info.json".toList] (.file info.toUtf8)).insert
      ["out".toList, "out.sol".toList] (.file flat.toUtf8)).insert
        ["out".toList, "out.json".toList] (.file input.toUtf8)

theorem writeAll_trio (bundle : Bundle) (document : Value) :
    writeAll trioSite.tree [] trioPlacement
        (drafts bundle trioPlacement document (Options.default []).flatExtension) =
      (trioWritten (bundle.manifestDocument.json documentIndent) bundle.flatText
        (document.json documentIndent), .ok ()) := by
  unfold drafts
  generalize bundle.manifestDocument.json documentIndent = info
  generalize bundle.flatText = flat
  generalize document.json documentIndent = input
  cbv

theorem exists_flattenFile_trio :
    ∃ info flat input,
      (flattenFile trioSite.tree [] (.default []) trioTarget).1 = trioWritten info flat input ∧
        (flattenFile trioSite.tree [] (.default []) trioTarget).2.outcome =
          .ok trioPlacement.directory := by
  obtain ⟨bundle, hbundle, -⟩ := exists_bundle_trio
  have hsettings : (compilerSettings trioSite.tree [] (.default [])).outcome = .ok none := by cbv
  let document : Value := bundle.compilerDocument none (Options.default []).evmVersion.name
  let plan : Plan := {
    place := trioPlacement
    files := drafts bundle trioPlacement document (Options.default []).flatExtension
    result := (trioPlacement.file (Options.default []).flatExtension).parent }
  have hplan : (planFile trioSite.tree [] (.default []) trioTarget).outcome = .ok plan :=
    planFile_eq_ok_iff.2
      ⟨bundle, none, trioPlacement, hbundle, hsettings, placementOf_trio, rfl⟩
  have hwrite : writeAll trioSite.tree [] plan.place plan.files = (trioWritten
      (bundle.manifestDocument.json documentIndent) bundle.flatText
        (document.json documentIndent), .ok ()) := writeAll_trio bundle document
  have hdone := flattenFile_of_written hplan hwrite
  have hresult : (trioPlacement.file (Options.default []).flatExtension).parent =
      trioPlacement.directory := by cbv
  rw [hdone]
  exact ⟨_, _, _, rfl, congrArg Except.ok hresult⟩

def goneFailure : Failure :=
  .unresolved "Gone.sol".toList none (some (.ofText "Gone.sol".toList))

theorem realPath_gone :
    trioSite.tree.realPath true [] goneTarget.file = .error .missing := by
  cbv

theorem discover_gone {weight : Weight} :
    (discover trioSite Source.byLines weight goneTarget.file).outcome = .error goneFailure :=
  (discover_eq_error_iff trioSite_sound).2 (.inl ⟨.missing, realPath_gone, by decide⟩)

theorem flattenSource_gone :
    (flattenSource trioSite.tree [] (.default []) Source.byLines goneTarget.file).outcome =
      .error goneFailure :=
  flattenSource_of_discover packageRootOf_trio discover_gone

theorem flattenFile_gone :
    (flattenFile trioSite.tree [] (.default []) goneTarget).2.outcome = .error goneFailure := by
  rw [flattenFile_of_flattenSource flattenSource_gone]

end Trio

/-- Flattening one target, on a site that a system can offer. A failure of the target's own leaves
the tree as it was. A target that is done has changed nothing but directories and files: new
directories that its placement's directory lies in, and the files that its three artifact paths lead
to, links followed. Where one of these files stands there was a file before or nothing. -/
theorem flattenFile_changes_artifacts (t : Tree) (cwd : Location) (o : Options) (target : Target)
    (hsound : Site.Sound ⟨t, cwd, none⟩) :
    (∀ failure, (flattenFile t cwd o target).2.outcome = .error failure → failure.isOfTarget →
      (flattenFile t cwd o target).1 = t) ∧
    ∀ result, (flattenFile t cwd o target).2.outcome = .ok result →
      ∃ placement, placementOf o target = .ok placement ∧
        ∀ place, (flattenFile t cwd o target).1.lookup place ≠ t.lookup place →
          (t.lookup place = none ∧
            (flattenFile t cwd o target).1.lookup place = some .directory ∧
              ∃ above, above <+: placement.directory.parts ∧
                (flattenFile t cwd o target).1.locate .target cwd
                  ⟨placement.directory.anchor, above⟩ = .ok place) ∨
          ((t.lookup place = none ∨ ∃ content, t.lookup place = some (.file content)) ∧
            (∃ content, (flattenFile t cwd o target).1.lookup place = some (.file content)) ∧
              ∃ ending ∈ [".info.json".toList, o.flatExtension, ".json".toList],
                (flattenFile t cwd o target).1.locate .target cwd (placement.file ending) =
                  .ok place) := by
  constructor
  · intro failure h hfailure
    rw [flattenFile_of_not_planned (planFile_of_isOfTarget h hfailure)]
  · intro result h
    obtain ⟨placement, hplacement, -, hextension, hchanged⟩ := frame_flattenFile hsound.linkless h
    refine ⟨placement, hplacement, fun place hplace => ?_⟩
    have hkept := hextension.kept place
    rcases hchanged place hplace with
      ⟨hdir, p, ⟨hanchor, habove⟩, hlocate⟩ | ⟨⟨content, hfile⟩, p, hp, hlocate⟩
    · obtain ⟨anchor, parts⟩ := p
      obtain rfl : anchor = placement.directory.anchor := hanchor
      refine .inl ⟨?_, hdir, parts, habove, hlocate⟩
      cases hold : t.lookup place with
      | none => rfl
      | some old =>
          -- a directory that was there before is no change
          rw [Tree.shapeAt, Tree.shapeAt, hold, hdir] at hkept
          cases old <;> simp_all [Entry.shape]
    · obtain ⟨ending, hending, rfl⟩ := List.mem_map.1 hp
      refine .inr ⟨?_, ⟨content, hfile⟩, ending, hending, hlocate⟩
      cases hold : t.lookup place with
      | none => exact .inl rfl
      | some old =>
          rw [Tree.shapeAt, Tree.shapeAt, hold, hfile] at hkept
          cases old <;> simp_all [Entry.shape]

theorem flattenFile_trio_changes_artifacts :
    ((flattenFile trioSite.tree [] (.default []) goneTarget).2.outcome = .error goneFailure ∧
      goneFailure.isOfTarget ∧
      (flattenFile trioSite.tree [] (.default []) goneTarget).1 = trioSite.tree) ∧
    (flattenFile trioSite.tree [] (.default []) trioTarget).2.outcome =
      .ok trioPlacement.directory ∧
    (flattenFile trioSite.tree [] (.default []) trioTarget).1.lookup ["out".toList] =
      some .directory ∧
    ∀ place, (flattenFile trioSite.tree [] (.default []) trioTarget).1.lookup place ≠
        trioSite.tree.lookup place →
      trioSite.tree.lookup place = none ∨
        ∃ content, trioSite.tree.lookup place = some (.file content) := by
  obtain ⟨info, flat, input, htree, houtcome⟩ := exists_flattenFile_trio
  obtain ⟨hrefused, -⟩ :=
    flattenFile_changes_artifacts trioSite.tree [] (.default []) goneTarget trioSite_sound
  obtain ⟨-, hdone⟩ :=
    flattenFile_changes_artifacts trioSite.tree [] (.default []) trioTarget trioSite_sound
  refine ⟨⟨flattenFile_gone, rfl, hrefused goneFailure flattenFile_gone rfl⟩, houtcome, ?_, ?_⟩
  · rw [htree]
    rfl
  · obtain ⟨placement, -, hchanged⟩ := hdone _ houtcome
    intro place hplace
    rcases hchanged place hplace with ⟨hnone, -⟩ | ⟨hold, -⟩
    · exact .inl hnone
    · exact hold

end SolidityFlattener
