import SolidityFlattener.Proofs.Path
import SolidityFlattener.Proofs.Run.Effects
import SolidityFlattener.Proofs.Run.Reads
import SolidityFlattener.Proofs.Tree.Beside

/-!
All that a target has to do with the tree.

`Target.LooksUp` collects the locations that flattening a target looks up, from those of the package
root to those of the artifacts. What it changes is among them. So it makes no difference to a target
what the tree has grown by elsewhere: it ends in the same way, tells the same and changes the same.
-/

namespace SolidityFlattener

variable {t t' b : Tree} {cwd : Location} {o : Options} {target : Target} {plan : Plan}
  {place : Placement} {files : List Draft} {looked : Set Location} {d : Draft}
  {text ending : Text} {base : Option Path}

/-! ### Writing alike -/

/-- The name that artifacts share. -/
theorem Placement.name_of_ofTarget (h : Placement.ofTarget text base = .ok place) :
    place.name ≠ [] ∧ '/' ∉ place.name := by
  unfold Placement.ofTarget at h
  simp only at h
  split at h
  · cases h
  · next hname =>
    obtain rfl := Except.ok.inj h
    refine ⟨hname, fun hmem => ?_⟩
    have hcut := List.mem_takeWhile_imp (List.mem_reverse.1 hmem)
    simp at hcut

/-- The file of a placement with an ending that holds no slash is in the placement's directory. -/
theorem Placement.file_eq_of_ofTarget (h : Placement.ofTarget text base = .ok place)
    (hending : ending ≠ []) (hslash : '/' ∉ ending) :
    place.file ending =
      ⟨place.directory.anchor, place.directory.parts ++ [place.name ++ ending]⟩ := by
  obtain ⟨hname, hplain⟩ := Placement.name_of_ofTarget h
  have hcomponent : Path.isComponent (place.name ++ ending) := by
    have hdot : place.name ++ ending ≠ ['.'] := by
      intro hdot
      rcases List.append_eq_singleton_iff.1 hdot with ⟨h, -⟩ | ⟨-, h⟩
      · exact hname h
      · exact hending h
    simp [Path.isComponent, hname, hdot]
  have hslashless : '/' ∉ place.name ++ ending := by simp [hplain, hslash]
  rw [Placement.file, Path.joinText_of_not_mem hslashless, if_pos hcomponent]

/-- When all is written, the path of each draft leads to a file that can be written. -/
theorem exists_locate_of_writeDrafts (hcwd : t.Linkless cwd)
    (h : writeDrafts t cwd files = (t', .ok ())) (hd : d ∈ files) :
    ∃ location, t'.locate .newFile cwd d.path = .ok location := by
  induction files generalizing t with
  | nil => simp at hd
  | cons first rest ih =>
      obtain ⟨written, hwritten, hrest⟩ := writeDrafts_cons_eq_ok_iff.1 h
      have hextends := Tree.extends_write hcwd hwritten
      have hcwd' := hextends.linkless hcwd
      rcases List.mem_cons.1 hd with rfl | hd
      · obtain ⟨location, hlocate, -⟩ := Tree.write_eq_ok_iff.1 hwritten
        exact ⟨location, (hextends.trans (extends_writeDrafts hcwd' hrest)).locate hlocate⟩
      · exact ih hcwd' hrest hd

theorem exists_beside_writeDrafts (h : Tree.AgreeOn looked t b) (hcwd : t.Linkless cwd)
    (hwritten : writeDrafts t cwd files = (t', .ok ()))
    (hlooked : ∀ d ∈ files, ∀ place ∈ t'.locateLookups .newFile cwd d.path, place ∈ looked) :
    ∃ b', writeDrafts b cwd files = (b', .ok ()) ∧ Tree.Beside looked t b t' b' := by
  induction files generalizing t b with
  | nil =>
      obtain rfl : t = t' := (Prod.mk.inj hwritten).1
      exact ⟨b, rfl, .refl h⟩
  | cons d rest ih =>
      obtain ⟨written, hfirst, hrest⟩ := writeDrafts_cons_eq_ok_iff.1 hwritten
      have hextends := Tree.extends_write hcwd hfirst
      have hcwd' := hextends.linkless hcwd
      have hgrown := hextends.trans (extends_writeDrafts hcwd' hrest)
      have halike := Tree.alike_write h (fun place hplace =>
        hlooked d List.mem_cons_self place (hgrown.locateLookups_subset .newFile cwd d.path hplace))
        d.text
      obtain ⟨c, hc, hbeside⟩ := halike.exists_of_ok hfirst
      obtain ⟨b', hb', hbeside'⟩ := ih hbeside.agree hcwd' hrest
        fun d hd => hlooked d (List.mem_cons_of_mem _ hd)
      exact ⟨b', writeDrafts_cons_eq_ok_iff.2 ⟨c, hc, hb'⟩, hbeside.trans hbeside'⟩

/-- A draft for the directory that is made: the ways to the drafts are all that is looked up. -/
def DraftedInside (place : Placement) (files : List Draft) : Prop :=
  ∃ d ∈ files, ∃ last, last ≠ [] ∧
    d.path = ⟨place.directory.anchor, place.directory.parts ++ [last]⟩

theorem exists_beside_writeAll (h : Tree.AgreeOn looked t b) (hcwd : t.Linkless cwd)
    (hwritten : writeAll t cwd place files = (t', .ok ())) (hinside : DraftedInside place files)
    (hlooked : ∀ d ∈ files, ∀ place ∈ t'.locateLookups .newFile cwd d.path, place ∈ looked) :
    ∃ b', writeAll b cwd place files = (b', .ok ()) ∧ Tree.Beside looked t b t' b' := by
  obtain ⟨made, hmade, hdrafts⟩ := writeAll_eq_ok_iff.1 hwritten
  obtain ⟨d, hd, last, hlast, hpath⟩ := hinside
  have hcwd' := (Tree.extends_makeDirectories hcwd hmade).linkless hcwd
  have hway : ∀ p, Tree.OnTheWay place.directory p → ∀ aim,
      ∀ other ∈ t'.locateLookups aim cwd p, other ∈ looked := by
    intro p hp aim other hother
    obtain ⟨location, hlocate⟩ := exists_locate_of_writeDrafts hcwd' hdrafts hd
    exact hlooked d hd other (Tree.locateLookups_subset_of_onTheWay hp (by rw [hpath])
      (by rw [hpath]) hlast (Tree.locate_eq_ok_iff.1 hlocate).1 t' aim cwd hother)
  obtain ⟨c, hc, hbeside⟩ :=
    Tree.exists_beside_makeDirectories h hcwd hmade (extends_writeDrafts hcwd' hdrafts) hway
  obtain ⟨b', hb', hbeside'⟩ := exists_beside_writeDrafts hbeside.agree hcwd' hdrafts hlooked
  exact ⟨b', writeAll_eq_ok_iff.2 ⟨c, hc, hb'⟩, hbeside.trans hbeside'⟩

theorem draftedInside_of_plan (hplan : (planFile t cwd o target).outcome = .ok plan) :
    DraftedInside plan.place plan.files := by
  obtain ⟨bundle, settings, place, -, -, hplace, rfl⟩ := planFile_eq_ok_iff.1 hplan
  obtain ⟨out, -, hplace⟩ := bind_eq_ok_iff.1 hplace
  obtain ⟨text, -, hplace⟩ := bind_eq_ok_iff.1 hplace
  have hfile := Placement.file_eq_of_ofTarget hplace
    (show ".json".toList ≠ [] by decide) (show '/' ∉ ".json".toList by decide)
  let d : Draft := ⟨"compiler_input".toList, place.file ".json".toList,
    (bundle.compilerDocument settings o.evmVersion.name).json documentIndent⟩
  exact ⟨d, by simp [drafts, d], place.name ++ ".json".toList, by simp, hfile⟩

/-! ### Reading alike -/

/-- The locations that are looked up for the compiler configuration. -/
def settingsLookups (t : Tree) (cwd : Location) (o : Options) : List Location :=
  match compilerConfigPath o with
  | .ok (some path) => t.locateLookups .target cwd path
  | _ => []

theorem compilerSettings_congr
    (h : ∀ place ∈ settingsLookups t cwd o, b.lookup place = t.lookup place) :
    compilerSettings b cwd o = compilerSettings t cwd o := by
  unfold compilerSettings
  refine Trace.bind_congr fun path? hpath => ?_
  cases path? with
  | none => rfl
  | some path =>
      have hpath : compilerConfigPath o = .ok (some path) := hpath
      have hlooked : ∀ place ∈ t.locateLookups .target cwd path,
          b.lookup place = t.lookup place := by simpa [settingsLookups, hpath] using h
      have hshape : ∀ place ∈ t.locateLookups .target cwd path,
          b.shapeAt place = t.shapeAt place := fun place hplace =>
        Tree.shapeAt_congr (hlooked place hplace)
      have hread : b.readText cwd path = t.readText cwd path :=
        Tree.readText_congr hshape fun place hplace =>
          hlooked place (Tree.mem_locateLookups hplace)
      simp only [settingsOfFile, Tree.isFile_congr hshape, hread]

namespace Target

/-- The locations that flattening a target looks up. Those of the artifacts are on the ways that
lead to them when all is written, which the ways before are part of. -/
inductive LooksUp (t : Tree) (cwd : Location) (o : Options) (target : Target) : Location → Prop
  | packageRoot {place : Location} :
      place ∈ packageRootLookups t cwd o → LooksUp t cwd o target place
  | root {packageRoot : Option Path} {place : Location} :
      packageRootOf t cwd o = .ok packageRoot →
        place ∈ t.realPathLookups true cwd target.file → LooksUp t cwd o target place
  | source {packageRoot : Option Path} {path p : Path} {place : Location} :
      packageRootOf t cwd o = .ok packageRoot → t.realPath true cwd target.file = .ok path →
        Site.Meets ⟨t, cwd, packageRoot⟩ Source.byLines path p →
          Site.LooksUp ⟨t, cwd, packageRoot⟩ Source.byLines p place →
            LooksUp t cwd o target place
  | labels {packageRoot : Option Path} {path : Path} {registry leveled : Registry}
      {place : Location} :
      packageRootOf t cwd o = .ok packageRoot →
        (discover ⟨t, cwd, packageRoot⟩ Source.byLines o.resolveWeight target.file).outcome =
          .ok (path, registry) →
            registry.level = .ok leveled → place ∈ labelLookups t cwd o path leveled →
              LooksUp t cwd o target place
  | settings {bundle : Bundle} {out : Value} {place : Location} :
      (flattenSource t cwd o Source.byLines target.file).outcome = .ok bundle →
        placeValue target = .ok out → place ∈ settingsLookups t cwd o →
          LooksUp t cwd o target place
  | artifact {plan : Plan} {d : Draft} {place : Location} :
      (planFile t cwd o target).outcome = .ok plan → d ∈ plan.files →
        place ∈ (flattenFile t cwd o target).1.locateLookups .newFile cwd d.path →
          LooksUp t cwd o target place

/-- A location that flattening a target changes. -/
def Changes (t : Tree) (cwd : Location) (o : Options) (target : Target) (place : Location) : Prop :=
  (flattenFile t cwd o target).1.lookup place ≠ t.lookup place

/-- A target that is done, or fails for a reason of its own. -/
def Settles (t : Tree) (cwd : Location) (o : Options) (target : Target) : Prop :=
  ∀ failure, (flattenFile t cwd o target).2.outcome = .error failure → failure.isOfTarget

end Target

theorem flattenSource_congr_of_agreeOn (hsound : Site.Sound ⟨t, cwd, none⟩)
    (hextends : t.Extends b) (h : Tree.AgreeOn {place | target.LooksUp t cwd o place} t b) :
    flattenSource b cwd o Source.byLines target.file =
      flattenSource t cwd o Source.byLines target.file := by
  have hshape : ∀ place, target.LooksUp t cwd o place → b.shapeAt place = t.shapeAt place :=
    fun place hplace => h.shapeAt hplace
  refine flattenSource_congr hsound (hsound.extends hextends) ?_ ?_ ?_ ?_
  · exact packageRootOf_congr hextends.links fun place hplace => hshape place (.packageRoot hplace)
  · intro packageRoot hpackageRoot
    exact Tree.realPath_congr hextends.links fun place hplace =>
      hshape place (.root hpackageRoot hplace)
  · intro packageRoot path hpackageRoot hpath p hmeets depth
    refine Site.loadNode_congr hextends.links
      (fun place hplace => hshape place (.source hpackageRoot hpath hmeets hplace))
      (fun place hplace => ?_) depth
    exact h place (.source hpackageRoot hpath hmeets (.text (Tree.mem_locateLookups hplace)))
  · intro packageRoot path registry leveled hpackageRoot hdiscover hlevel
    exact labelBase_congr hextends.links fun place hplace =>
      hshape place (.labels hpackageRoot hdiscover hlevel hplace)

/-- A plan depends on the bundle and, where there is one, on the settings. -/
theorem planFile_congr_of_source
    (hsource : flattenSource b cwd o Source.byLines target.file =
      flattenSource t cwd o Source.byLines target.file)
    (hsettings : ∀ bundle out,
      (flattenSource t cwd o Source.byLines target.file).outcome = .ok bundle →
        placeValue target = .ok out → compilerSettings b cwd o = compilerSettings t cwd o) :
    planFile b cwd o target = planFile t cwd o target := by
  unfold planFile
  rw [hsource]
  refine Trace.bind_congr fun _ _ => Trace.bind_congr fun _ _ => ?_
  refine Trace.bind_congr fun bundle hbundle => Trace.bind_congr fun out hout => ?_
  rw [hsettings bundle out hbundle hout]

/-- A target is planned alike on a tree that has grown by nothing that is looked up for it. -/
theorem planFile_congr (hsound : Site.Sound ⟨t, cwd, none⟩) (hextends : t.Extends b)
    (h : Tree.AgreeOn {place | target.LooksUp t cwd o place} t b) :
    planFile b cwd o target = planFile t cwd o target :=
  planFile_congr_of_source (flattenSource_congr_of_agreeOn hsound hextends h)
    fun _ _ hbundle hout =>
      compilerSettings_congr fun place hplace => h place (.settings hbundle hout hplace)

/-! ### A target on a tree that has grown -/

namespace Target

theorem Settles.congr (hsettles : target.Settles t cwd o)
    (hsame : (flattenFile b cwd o target).2 = (flattenFile t cwd o target).2) :
    target.Settles b cwd o := by
  unfold Settles
  rwa [hsame]

theorem Settles.written (hsettles : target.Settles t cwd o)
    (hplan : (planFile t cwd o target).outcome = .ok plan) :
    writeAll t cwd plan.place plan.files = ((flattenFile t cwd o target).1, .ok ()) := by
  rcases hwrite : writeAll t cwd plan.place plan.files with ⟨written, fault | _⟩
  · have hfault := flattenFile_of_fault hplan hwrite
    have hown := hsettles (.system fault) (by rw [hfault])
    simp [Failure.isOfTarget] at hown
  · rw [flattenFile_of_written hplan hwrite]

theorem Settles.extends (hsettles : target.Settles t cwd o) (hcwd : t.Linkless cwd) :
    t.Extends (flattenFile t cwd o target).1 := by
  cases hplan : (planFile t cwd o target).outcome with
  | error failure =>
      rw [flattenFile_of_not_planned hplan]
      exact .refl t
  | ok plan => exact (frame_writeAll hcwd (hsettles.written hplan)).extension

/-- A target that is done or fails for a reason of its own does so alike, and changes the same, on a
tree that has grown by nothing that is looked up for it. -/
theorem Settles.beside (hsettles : target.Settles t cwd o) (hsound : Site.Sound ⟨t, cwd, none⟩)
    (hextends : t.Extends b) (h : Tree.AgreeOn {place | target.LooksUp t cwd o place} t b) :
    (flattenFile b cwd o target).2 = (flattenFile t cwd o target).2 ∧
      Tree.Beside {place | target.LooksUp t cwd o place} t b (flattenFile t cwd o target).1
        (flattenFile b cwd o target).1 := by
  have hsame := planFile_congr hsound hextends h
  cases hplan : (planFile t cwd o target).outcome with
  | error failure =>
      rw [flattenFile_of_not_planned hplan, flattenFile_of_not_planned (hsame ▸ hplan), hsame]
      exact ⟨rfl, .refl h⟩
  | ok plan =>
      have hwritten := hsettles.written hplan
      obtain ⟨b', hb', hbeside⟩ := exists_beside_writeAll h hsound.linkless hwritten
        (draftedInside_of_plan hplan) fun d hd other hother => .artifact hplan hd hother
      rw [flattenFile_of_written (hsame ▸ hplan) hb', flattenFile_of_written hplan hwritten, hsame]
      refine ⟨rfl, ?_⟩
      rwa [flattenFile_of_written hplan hwritten] at hbeside

end Target

end SolidityFlattener
