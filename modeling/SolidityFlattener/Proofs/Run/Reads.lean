import SolidityFlattener.Proofs.Imports.TwoSites
import SolidityFlattener.Proofs.Run.Artifacts
import SolidityFlattener.Proofs.Tree.Growth

/-!
What the run over one root file reads.

A run asks the tree for the package root, for the canonical path of its root, for the files that its
search comes to, and for the base of the labels. Where two trees give the same answers to these, the
run is the same, with all that it tells. So a file that the manifest of a run does not list can
hold anything.
-/

namespace SolidityFlattener

variable {t t' : Tree} {cwd place : Location} {o : Options} {extractor : Source.Extractor}
  {root path start : Path} {packageRoot : Option Path} {bundle : Bundle} {r : Registry}

/-! ### The package root -/

/-- The locations that are looked up for the first package directory at one of some locations. -/
def firstPackageRootLookups (t : Tree) (cwd : Location) : List Location → List Location
  | [] => []
  | place :: rest =>
    let candidate := Path.ofLocation (place ++ [packageDirectory])
    t.locateLookups .target cwd candidate ++
      match t.isDirectory cwd candidate with
      | .ok true => t.realPathLookups false cwd candidate
      | .ok false => firstPackageRootLookups t cwd rest
      | .error _ => []

theorem firstPackageRoot_congr (hlinks : t'.links = t.links) {places : List Location}
    (h : ∀ place ∈ firstPackageRootLookups t cwd places, t'.shapeAt place = t.shapeAt place) :
    firstPackageRoot t' cwd places = firstPackageRoot t cwd places := by
  induction places with
  | nil => rfl
  | cons place rest ih =>
      obtain ⟨hcandidate, hmore⟩ := List.forall_mem_append.1 h
      rw [firstPackageRoot, firstPackageRoot, Tree.isDirectory_congr hcandidate]
      refine bind_congr_of_ok fun found hfound => ?_
      rw [hfound] at hmore
      cases found with
      | true => simp only [if_true, Tree.realPath_congr hlinks hmore]
      | false => simpa using ih hmore

/-- The locations that are looked up for the package root of a run. -/
def packageRootLookups (t : Tree) (cwd : Location) (o : Options) : List Location :=
  match o.packageRoot with
  | some path => t.realPathLookups false cwd path
  | none =>
    let start := o.baseDir.getD (Path.ofLocation cwd)
    t.realPathLookups false cwd start ++
      match t.realPath false cwd start with
      | .ok place => firstPackageRootLookups t cwd (upward place.parts.reverse)
      | .error _ => []

theorem packageRootOf_congr (hlinks : t'.links = t.links)
    (h : ∀ place ∈ packageRootLookups t cwd o, t'.shapeAt place = t.shapeAt place) :
    packageRootOf t' cwd o = packageRootOf t cwd o := by
  unfold packageRootLookups at h
  unfold packageRootOf
  cases hpackage : o.packageRoot with
  | some path =>
      rw [hpackage] at h
      simp only [Tree.realPath_congr hlinks h]
  | none =>
      rw [hpackage] at h
      obtain ⟨hstart, hmore⟩ := List.forall_mem_append.1 h
      simp only [findPackageRoot, Tree.realPath_congr hlinks hstart]
      refine bind_congr_of_ok fun place hplace => ?_
      rw [hplace] at hmore
      exact firstPackageRoot_congr hlinks hmore

/-! ### The labels -/

/-- The locations that are looked up for the base of the labels. -/
def labelLookups (t : Tree) (cwd : Location) (o : Options) (root : Path) (r : Registry) :
    List Location :=
  match o.baseDir with
  | none => []
  | some base => if r.paths.all (· == root) then [] else t.realPathLookups false cwd base

theorem labelBase_congr (hlinks : t'.links = t.links)
    (h : ∀ place ∈ labelLookups t cwd o root r, t'.shapeAt place = t.shapeAt place) :
    labelBase t' cwd o root r = labelBase t cwd o root r := by
  unfold labelLookups at h
  unfold labelBase
  cases hbase : o.baseDir with
  | none => rfl
  | some base =>
      rw [hbase] at h
      simp only at h ⊢
      split_ifs at h ⊢ with hroot
      · rfl
      · rw [Tree.realPath_congr hlinks h]

/-! ### The run -/

theorem Site.Sound.of_tree {other : Option Path} (h : Site.Sound ⟨t, cwd, packageRoot⟩) :
    Site.Sound ⟨t, cwd, other⟩ := ⟨h.named, h.cwd⟩

/-- A run is the same on two trees that answer alike to all that it asks. -/
theorem flattenSource_congr (hsound : Site.Sound ⟨t, cwd, none⟩)
    (hsound' : Site.Sound ⟨t', cwd, none⟩)
    (hpackage : packageRootOf t' cwd o = packageRootOf t cwd o)
    (hroot : ∀ packageRoot, packageRootOf t cwd o = .ok packageRoot →
      t'.realPath true cwd root = t.realPath true cwd root)
    (hload : ∀ packageRoot path, packageRootOf t cwd o = .ok packageRoot →
      t.realPath true cwd root = .ok path →
        ∀ q, Site.Meets ⟨t, cwd, packageRoot⟩ extractor path q → ∀ depth,
          loadNode ⟨t', cwd, packageRoot⟩ extractor q depth =
            loadNode ⟨t, cwd, packageRoot⟩ extractor q depth)
    (hbase : ∀ packageRoot path registry leveled, packageRootOf t cwd o = .ok packageRoot →
      (discover ⟨t, cwd, packageRoot⟩ extractor o.resolveWeight root).outcome =
        .ok (path, registry) →
          registry.level = .ok leveled →
            labelBase t' cwd o path leveled = labelBase t cwd o path leveled) :
    flattenSource t' cwd o extractor root = flattenSource t cwd o extractor root := by
  unfold flattenSource
  rw [hpackage]
  refine Trace.bind_congr fun _ _ => Trace.bind_congr fun packageRoot hpackageRoot => ?_
  have hpackageRoot : packageRootOf t cwd o = .ok packageRoot := mapError_eq_ok_iff.1 hpackageRoot
  have hdiscover : discover ⟨t', cwd, packageRoot⟩ extractor o.resolveWeight root =
      discover ⟨t, cwd, packageRoot⟩ extractor o.resolveWeight root :=
    discover_congr hsound.of_tree hsound'.of_tree (hroot packageRoot hpackageRoot)
      fun path hpath => hload packageRoot path hpackageRoot hpath
  rw [hdiscover]
  refine Trace.bind_congr fun found hfound => ?_
  obtain ⟨path, registry⟩ := found
  refine Trace.bind_congr fun _ _ => Trace.bind_congr fun _ _ => ?_
  refine Trace.bind_congr fun leveled hleveled => ?_
  cases o.newline with
  | none => rfl
  | some newline =>
      simp only [hbase packageRoot path registry leveled hpackageRoot hfound hleveled]

/-! ### Trees of one shape -/

/-- Another content for a file changes nothing but what the file holds. -/
theorem Tree.Extends.insert_file {content : ByteArray} (hnamed : t.Named)
    (hfile : t.lookup place = some (.file content)) (bytes : ByteArray) :
    t.Extends (t.insert place (.file bytes)) := by
  have hne := Tree.ne_nil_of_lookup_file hfile
  refine .insert hne (by simp) ?_ ?_
  · intro old hold
    obtain rfl : old = .file content := Option.some.inj (hold.symm.trans hfile)
    rfl
  · exact hnamed _ (Tree.mem_entries_of_lookup hfile hne)

theorem Tree.shapeAt_insert_file {content : ByteArray}
    (hfile : t.lookup place = some (.file content)) (bytes : ByteArray) (other : Location) :
    (t.insert place (.file bytes)).shapeAt other = t.shapeAt other := by
  have hne := Tree.ne_nil_of_lookup_file hfile
  by_cases heq : other = place
  · subst heq
    rw [Tree.shapeAt, Tree.shapeAt, Tree.lookup_insert_self hne, hfile]
    rfl
  · exact Tree.shapeAt_congr (Tree.lookup_insert_of_ne hne heq)

theorem Site.Sound.extends (h : Site.Sound ⟨t, cwd, packageRoot⟩) (hextends : t.Extends t') :
    Site.Sound ⟨t', cwd, packageRoot⟩ where
  named := hextends.named h.named
  cwd := (hextends.plain (h.plain_origin Path.here)).realPath_ofLocation cwd

/-- A file that a search comes to stands where its path says, if anywhere. -/
theorem Site.Sound.eq_parts_of_meets {site : Site} {q : Path} (hsound : site.Sound)
    (hroot : site.tree.realPath true site.cwd root = .ok path)
    (hmeets : site.Meets extractor path q)
    (hlocate : site.tree.locate .target site.cwd q = .ok place) : q = .ofLocation place := by
  obtain ⟨spelled, hreal⟩ := Site.exists_realPath_of_reached hroot hmeets.reached
  obtain ⟨found, rfl, hplain⟩ := hsound.exists_plain_of_realPath hreal
  rw [hplain.eq_of_locate hsound.named hlocate]

/-- What a file holds matters to a run only where the run loads the file. -/
theorem flattenSource_insert_file {content bytes : ByteArray}
    (hsound : Site.Sound ⟨t, cwd, none⟩) (hfile : t.lookup place = some (.file content))
    (hload : ∀ packageRoot path, packageRootOf t cwd o = .ok packageRoot →
      t.realPath true cwd root = .ok path →
        Site.Meets ⟨t, cwd, packageRoot⟩ extractor path (.ofLocation place) → ∀ depth,
          loadNode ⟨t.insert place (.file bytes), cwd, packageRoot⟩ extractor (.ofLocation place)
              depth =
            loadNode ⟨t, cwd, packageRoot⟩ extractor (.ofLocation place) depth) :
    flattenSource (t.insert place (.file bytes)) cwd o extractor root =
      flattenSource t cwd o extractor root := by
  have hextends := Tree.Extends.insert_file hsound.named hfile bytes
  have hshape := Tree.shapeAt_insert_file hfile bytes
  refine flattenSource_congr hsound (hsound.extends hextends)
    (packageRootOf_congr hextends.links fun other _ => hshape other)
    (fun _ _ => Tree.realPath_congr hextends.links fun other _ => hshape other) ?_
    fun _ _ _ _ _ _ _ => labelBase_congr hextends.links fun other _ => hshape other
  intro packageRoot path hpackageRoot hpath q hmeets depth
  by_cases hq : q = .ofLocation place
  · subst hq
    exact hload packageRoot path hpackageRoot hpath hmeets depth
  · refine Site.loadNode_congr hextends.links (fun other _ => hshape other)
      (fun found hfound => ?_) depth
    have hfound := hsound.of_tree.eq_parts_of_meets hpath hmeets hfound
    exact Tree.lookup_insert_of_ne (Tree.ne_nil_of_lookup_file hfile) fun heq => hq (heq ▸ hfound)

/-! ### Two files and a third -/

section Trio

variable {weight : Weight}

/-- A file with an import, the file that it imports, and one that neither of them imports. -/
def trioSite : Site where
  tree := ⟨[
    ringEntry "A.sol" "import \"./B.sol\";\ncontract A \x7b\x7d",
    ringEntry "B.sol" "contract B \x7b\x7d",
    ringEntry "C.sol" "contract C \x7b\x7d"]⟩
  cwd := []
  packageRoot := none

def trioA (depth : Int) : Node :=
  { Node.ofPath (Path.top "A.sol") with
    body := ["contract A \x7b\x7d".toList], imports := [Path.top "B.sol"], depth := depth }

def trioB (depth : Int) : Node :=
  { Node.ofPath (Path.top "B.sol") with body := ["contract B \x7b\x7d".toList], depth := depth }

def trioRegistry : Registry where
  nodes := [trioA 0, trioB 1]
  nodup_paths := by decide

theorem trioSite_sound : trioSite.Sound where
  named := by
    unfold Tree.Named Tree.IsEntryName
    decide
  cwd := by cbv

theorem loadNode_trioA (depth : Int) :
    loadNode trioSite Source.byLines (Path.top "A.sol") depth = .ok (trioA depth) :=
  Site.loadNode_eq ⟨["./B.sol".toList], [], ["contract A \x7b\x7d".toList]⟩ []
    [Path.top "B.sol"] depth (by cbv) (by decide +kernel) (by decide +kernel) (by cbv)

theorem loadNode_trioB (depth : Int) :
    loadNode trioSite Source.byLines (Path.top "B.sol") depth = .ok (trioB depth) :=
  Site.loadNode_eq ⟨[], [], ["contract B \x7b\x7d".toList]⟩ [] [] depth (by cbv)
    (by decide +kernel) (by decide +kernel) (by cbv)

theorem discover_trio {root : Path}
    (hroot : trioSite.tree.realPath true [] root = .ok (Path.top "A.sol")) :
    (discover trioSite Source.byLines weight root).outcome =
      .ok (Path.top "A.sol", trioRegistry) := by
  have hrun : (Search.run trioSite Source.byLines weight 4
      ⟨Registry.empty.add (trioA 0), [Path.top "A.sol"]⟩).outcome =
      .ok ((Registry.empty.add (trioA 0)).add (trioB 1)) :=
    (Search.outcome_run_cons (Search.visit_of_new (n := trioA 0) (by decide +kernel) rfl
      (by decide +kernel) (loadNode_trioB 1))).trans rfl
  exact discover_eq_ok_iff.2 ⟨hroot, trioA 0, loadNode_trioA 0, _, hrun, by decide +kernel⟩

theorem packageRootOf_trio : packageRootOf trioSite.tree [] (.default []) = .ok none := by
  cbv

/-- A run over the first file, however its path is written, lists it with the second. -/
theorem exists_bundle_of_realPath {root : Path}
    (hroot : trioSite.tree.realPath true [] root = .ok (Path.top "A.sol")) :
    ∃ bundle, (flattenSource trioSite.tree [] (.default []) Source.byLines root).outcome =
        .ok bundle ∧
      bundle.manifest.map Prod.fst = [.top "A.sol", .top "B.sol"] := by
  have horder : trioRegistry.order = .ok [trioB 1, trioA 0] := by cbv
  have hbase : trioSite.tree.realPath false [] (.ofLocation []) = .ok (.ofLocation []) := by cbv
  obtain ⟨bundle, f, -, horder, -⟩ := exists_flattening (trioA 0) packageRootOf_trio
    (discover_trio hroot) horder (by simp) rfl (exists_labelBase rfl hbase _)
  refine ⟨bundle, flattenSource_eq_ok_iff.2 ⟨f⟩, ?_⟩
  have hpaths := congrArg List.reverse f.paths_eq
  rw [horder, ← List.map_reverse] at hpaths
  rw [f.manifest_eq, List.map_map]
  exact hpaths

theorem exists_bundle_trio :
    ∃ bundle, (flattenSource trioSite.tree [] (.default []) Source.byLines
        (.ofText "A.sol".toList)).outcome = .ok bundle ∧
      bundle.manifest.map Prod.fst = [.top "A.sol", .top "B.sol"] :=
  exists_bundle_of_realPath (by cbv)

end Trio

/-- A run that makes a bundle loads only what its manifest lists. On a site that a system can offer
the run is the same, bundle and all, whatever else a file that is not listed holds. -/
theorem flattenSource_of_unlisted_file {content : ByteArray}
    (hsound : Site.Sound ⟨t, cwd, none⟩)
    (hrun : (flattenSource t cwd o extractor root).outcome = .ok bundle)
    (hfile : t.lookup place = some (.file content))
    (hunlisted : Path.ofLocation place ∉ bundle.manifest.map Prod.fst) (bytes : ByteArray) :
    flattenSource (t.insert place (.file bytes)) cwd o extractor root =
      flattenSource t cwd o extractor root := by
  obtain ⟨f⟩ := flattenSource_eq_ok_iff.1 hrun
  refine flattenSource_insert_file hsound hfile ?_
  intro packageRoot path hpackageRoot hpath hmeets
  obtain rfl : f.packageRoot = packageRoot :=
    Except.ok.inj (f.packageRoot_eq.symm.trans hpackageRoot)
  obtain rfl : f.root.path = path :=
    Except.ok.inj ((discover_eq_ok_iff.1 f.discovered).1.symm.trans hpath)
  have hlisted := (f.mem_leveled_iff hsound).2 hmeets.reached
  refine absurd ?_ hunlisted
  rw [f.manifest_eq]
  simpa [Registry.paths] using hlisted

theorem flattenSource_trio_of_unlisted_file :
    ∃ bundle, (flattenSource trioSite.tree [] (.default []) Source.byLines
        (.ofText "A.sol".toList)).outcome = .ok bundle ∧
      (flattenSource (trioSite.tree.insert ["C.sol".toList]
        (.file (Text.toUtf8 "contract C is A \x7b\x7d".toList))) [] (.default [])
          Source.byLines (.ofText "A.sol".toList)).outcome = .ok bundle := by
  obtain ⟨bundle, hrun, hmanifest⟩ := exists_bundle_trio
  have hfile : trioSite.tree.lookup ["C.sol".toList] =
      some (.file (Text.toUtf8 "contract C \x7b\x7d".toList)) := rfl
  have hunlisted : Path.ofLocation ["C.sol".toList] ∉ bundle.manifest.map Prod.fst := by
    rw [hmanifest]
    decide
  have hsame := flattenSource_of_unlisted_file (t := trioSite.tree) trioSite_sound hrun hfile
    hunlisted (Text.toUtf8 "contract C is A \x7b\x7d".toList)
  exact ⟨bundle, hrun, (congrArg Trace.outcome hsame).trans hrun⟩

end SolidityFlattener
