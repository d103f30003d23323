import SolidityFlattener.Proofs.Artifact.Targets
import SolidityFlattener.Proofs.Imports.RootFiles
import SolidityFlattener.Proofs.Run.Artifacts
import SolidityFlattener.Proofs.Run.Footprint

/-!
Where derived targets go.

The directory of a derived target is told by components: `flat` in the base directory, those of the
subdirectory with all slashes turned forward, and the stem of the file. So two files of one run are
told apart by their stems alone, whatever directories they are in. The stems `.` and `..` lead to
the subdirectory itself and to the one above it, yet under names that no other stem gives.
-/

namespace SolidityFlattener

variable {o : Options} {cwd : Location} {file f g directory : Path} {base : Option Path}
  {sub parent name ending ending' : Text} {place : Placement} {t : Tree} {sel : Selection}
  {here : Location}

/-- The target of a file with a derived place. -/
def derivedFor (sub : Text) (file : Path) : Target := ⟨file, .null, .ofText sub⟩

/-- The paths that a target's artifacts are written to. -/
def Target.artifactPaths (o : Options) (target : Target) : List Path :=
  match placementOf o target with
  | .ok place => [".info.json".toList, o.flatExtension, ".json".toList].map place.file
  | .error _ => []

/-! ### The place of a target -/

@[simp] theorem Points.text_ofText (t : Text) : Points.text (Points.ofText t) = t := by
  simp [Points.text, Points.ofText, Point.chars, List.flatMap_map]

theorem placeValue_derivedFor :
    placeValue (derivedFor sub file) = .ok (.ofText (derivedTarget file sub)) := by
  cases sub with
  | nil => rfl
  | cons c sub =>
      have hsub := Points.text_ofText (c :: sub)
      simp only [Points.ofText, List.map_cons] at hsub
      simp [placeValue, derivedFor, Value.isNull, Value.ofText, Value.isTruthy, Points.ofText, hsub]

theorem placementOf_derivedFor :
    placementOf o (derivedFor sub file) =
      Placement.ofTarget (derivedTarget file sub) o.baseDir := by
  rw [placementOf, placeValue_derivedFor]
  simp [bind, Except.bind, placeText, Value.ofText]

/-- A target is cut at its last slash. -/
theorem ofTarget_append_slash (hname : name ≠ []) (hslash : '/' ∉ name)
    (hback : '\\' ∉ name) :
    Placement.ofTarget (parent ++ '/' :: name) base = .ok ⟨(base.getD .here).join
      ((Path.ofText (Text.forwardSlashes parent)).joinText name), name⟩ := by
  have hforward : Text.forwardSlashes (parent ++ '/' :: name) =
      Text.forwardSlashes parent ++ '/' :: name := by
    rw [Text.forwardSlashes_append]
    congr 1
    exact Text.forwardSlashes_of_not_mem (by simp [hback])
  have hlast : (Text.forwardSlashes parent ++ '/' :: name).getLast? ≠ some '/' := by
    rw [List.getLast?_append_cons, List.getLast?_cons_of_ne_nil hname]
    exact fun hlast => hslash (List.mem_of_mem_getLast? hlast)
  have hcut : Cut (parent ++ '/' :: name) (Text.forwardSlashes parent) name :=
    ⟨hname, hslash, .inr (hforward ▸ plainTarget_of_getLast? (hforward ▸ hlast))⟩
  exact Placement.ofTarget_of_cut hcut base

/-- What a derived target has before the stem. -/
def derivedParent (sub : Text) : Text :=
  if sub = [] then "flat".toList
  else "flat/".toList ++ Text.stripWhile (fun c => c == '/' || c == '\\') sub

theorem derivedTarget_eq : derivedTarget file sub = derivedParent sub ++ '/' :: file.stem := by
  unfold derivedTarget derivedParent
  by_cases hsub : sub = []
  · simp [hsub, List.intercalate]
  · simp [hsub, List.intercalate]

theorem components_derivedParent :
    Path.components (Text.forwardSlashes (derivedParent sub)) =
      "flat".toList :: Path.components (Text.forwardSlashes sub) := by
  unfold derivedParent
  split
  · next hsub =>
    subst hsub
    decide
  · have hslash : ∀ {ends : Text}, (∀ c ∈ ends, (c == '/' || c == '\\') = true) →
        ∀ c ∈ Text.forwardSlashes ends, c = '/' :=
      fun hends => Text.forwardSlashes_of_isSlash fun c hc => by
        simpa [Text.IsSlash] using hends c hc
    obtain ⟨front, back, hsub, hfront, hback⟩ :=
      Text.exists_append_stripWhile_append (fun c => c == '/' || c == '\\') sub
    generalize Text.stripWhile (fun c => c == '/' || c == '\\') sub = inside at hsub ⊢
    -- the slashes at the ends are no components of the whole either
    have hinside : Path.components (Text.forwardSlashes sub) =
        Path.components (Text.forwardSlashes inside) := by
      rw [hsub, Text.forwardSlashes_append, Text.forwardSlashes_append,
        Path.components_append_slashes (hslash hback),
        Path.components_slashes_append (hslash hfront)]
    have hflat : Text.forwardSlashes "flat/".toList = "flat".toList ++ '/' :: [] := by decide
    rw [hinside, Text.forwardSlashes_append, hflat, List.append_assoc, List.cons_append,
      List.nil_append, Path.components_append_slash]
    rfl

theorem anchor_derivedParent :
    Anchor.ofText (Text.forwardSlashes (derivedParent sub)) = .relative := by
  unfold derivedParent
  split
  · decide
  · rfl

/-- A file of whose name the system takes the stem as one component. -/
def PlainStem (stem : Text) : Prop := stem ≠ [] ∧ '/' ∉ stem ∧ '\\' ∉ stem

/-- The target derived for a plain stem has the directory `flat` in front, then the components of
the subdirectory, then those of the stem. -/
theorem ofTarget_derivedTarget (hstem : PlainStem file.stem) (base : Option Path) :
    Placement.ofTarget (derivedTarget file sub) base =
      .ok ⟨(base.getD .here).join ⟨.relative, "flat".toList ::
        (Path.components (Text.forwardSlashes sub) ++ Path.components file.stem)⟩, file.stem⟩ := by
  obtain ⟨hne, hslash, hback⟩ := hstem
  rw [derivedTarget_eq, ofTarget_append_slash hne hslash hback]
  simp only [Path.joinText_of_not_mem hslash, Path.ofText, anchor_derivedParent,
    components_derivedParent, Path.components_of_not_mem hslash, List.cons_append]

/-- The components of the directory that a run over a directory puts a file's artifacts in. -/
def derivedParts (cwd : Location) (sub stem : Text) : List Text :=
  cwd ++ "flat".toList :: (Path.components (Text.forwardSlashes sub) ++ Path.components stem)

theorem placementOf_eq_of_plainStem (hbase : o.baseDir = some (.ofLocation cwd))
    (hstem : PlainStem file.stem) :
    placementOf o (derivedFor sub file) =
      .ok ⟨.ofLocation (derivedParts cwd sub file.stem), file.stem⟩ := by
  rw [placementOf_derivedFor, ofTarget_derivedTarget hstem, hbase]
  rfl

theorem artifactPaths_eq_of_plainStem (hbase : o.baseDir = some (.ofLocation cwd))
    (hextension : o.flatExtension = ".sol".toList) (hstem : PlainStem file.stem) :
    (derivedFor sub file).artifactPaths o =
      [".info.json".toList, ".sol".toList, ".json".toList].map fun ending =>
        .ofLocation (derivedParts cwd sub file.stem ++ [file.stem ++ ending]) := by
  have hplace : placementOf o (derivedFor sub file) =
      .ok ⟨.ofLocation (derivedParts cwd sub file.stem), file.stem⟩ :=
    placementOf_eq_of_plainStem hbase hstem
  have htarget := placementOf_derivedFor.symm.trans hplace
  rw [Target.artifactPaths, hplace, hextension]
  refine List.map_congr_left fun ending hending => ?_
  have hproper : ending ≠ [] ∧ '/' ∉ ending := by
    revert ending
    decide
  exact Placement.file_eq_of_ofTarget htarget hproper.1 hproper.2

/-! ### Places told apart -/

/-- What the names of artifacts end with. -/
def endings : List Text := [".info.json".toList, ".sol".toList, ".json".toList]

theorem isEntryName_append {stem : Text} (hending : ending ∈ endings) :
    Tree.IsEntryName (stem ++ ending) := by
  have hlong : 2 < (stem ++ ending).length := by
    have : ∀ ending ∈ endings, 2 < ending.length := by decide
    rw [List.length_append]
    have := this ending hending
    omega
  refine ⟨?_, ?_⟩
  · rw [Path.isComponent, Bool.and_eq_true, bne_iff_ne, bne_iff_ne]
    constructor
    · rintro hnil
      simp [hnil] at hlong
    · rintro hdot
      simp [hdot] at hlong
  · rintro hdots
    simp [hdots] at hlong

theorem straight_components_stem {stem : Text} (hstem : PlainStem stem) (here : Location) :
    Tree.straight here (Path.components stem) =
      if stem = ['.'] then here else if stem = ['.', '.'] then here.dropLast
      else here ++ [stem] := by
  obtain ⟨hne, hslash, -⟩ := hstem
  rw [Path.components_of_not_mem hslash]
  by_cases hdot : stem = ['.']
  · subst hdot
    rfl
  · have hcomponent : Path.isComponent stem := by simp [Path.isComponent, hne, hdot]
    rw [if_pos hcomponent, if_neg hdot]
    by_cases hdots : stem = ['.', '.']
    · subst hdots
      rfl
    · rw [if_neg hdots]
      exact Tree.stepTo_of_isEntryName ⟨hcomponent, hdots⟩ here

/-- Where no link is met, artifacts with different stems or different endings are in different
places. -/
theorem eq_of_straight_eq {stem stem' : Text} (hstem : PlainStem stem) (hstem' : PlainStem stem')
    (hending : ending ∈ endings) (hending' : ending' ∈ endings)
    (h : Tree.straight [] (derivedParts cwd sub stem ++ [stem ++ ending]) =
      Tree.straight [] (derivedParts cwd sub stem' ++ [stem' ++ ending'])) :
    stem = stem' ∧ ending = ending' := by
  have hsplit : ∀ {stem ending}, PlainStem stem → ending ∈ endings →
      Tree.straight [] (derivedParts cwd sub stem ++ [stem ++ ending]) =
        Tree.straight (Tree.straight [] (cwd ++ "flat".toList ::
          Path.components (Text.forwardSlashes sub))) (Path.components stem) ++
            [stem ++ ending] := by
    intro stem ending hstem hending
    rw [Tree.straight_append, derivedParts, ← List.cons_append, ← List.append_assoc,
      Tree.straight_append]
    exact Tree.stepTo_of_isEntryName (isEntryName_append hending) _
  rw [hsplit hstem hending, hsplit hstem' hending'] at h
  generalize Tree.straight [] (cwd ++ "flat".toList ::
    Path.components (Text.forwardSlashes sub)) = here at h
  obtain ⟨hdirectory, hname⟩ := List.append_inj' h rfl
  have hname : stem ++ ending = stem' ++ ending' := List.singleton_inj.1 hname
  -- a dot more in the stem would be one less in the ending
  have hshift : ∀ ending ∈ endings, ∀ ending' ∈ endings,
      ['.'] ++ ending ≠ ['.', '.'] ++ ending' := by decide
  obtain rfl : stem = stem' := by
    have hlength := congrArg List.length hdirectory
    rw [straight_components_stem hstem, straight_components_stem hstem'] at hdirectory hlength
    split_ifs at hdirectory hlength with hdot hdot' hdots' hdots hdot' hdots'
    · rw [hdot, hdot']
    · rw [hdot, hdots'] at hname
      exact absurd hname (hshift ending hending ending' hending')
    · simp at hlength
    · rw [hdots, hdot'] at hname
      exact absurd hname.symm (hshift ending' hending' ending hending)
    · rw [hdots, hdots']
    · simp only [List.length_dropLast, List.length_append, List.length_singleton] at hlength
      omega
    · simp at hlength
    · simp only [List.length_dropLast, List.length_append, List.length_singleton] at hlength
      omega
    · simpa using hdirectory
  exact ⟨rfl, List.append_cancel_left hname⟩

section Straight

variable (hbase : o.baseDir = some (.ofLocation cwd)) (hextension : o.flatExtension = ".sol".toList)

include hbase hextension in
/-- Where no link is met, the names of an artifact's path tell its place. -/
theorem eq_straight_of_mem_artifactPaths {p : Path} {found : Location}
    (hstem : PlainStem file.stem) (hp : p ∈ (derivedFor sub file).artifactPaths o)
    (hlinks : t.NoLinkAt (t.locateLookups .target cwd p))
    (hlocate : t.locate .target cwd p = .ok found) : found = Tree.straight [] p.parts := by
  have horigin : p.origin cwd = [] := by
    rw [artifactPaths_eq_of_plainStem hbase hextension hstem] at hp
    obtain ⟨ending, -, rfl⟩ := List.mem_map.1 hp
    rfl
  rw [Tree.eq_straight_of_locate hlocate hlinks, horigin]

include hbase hextension in
theorem nodup_artifactPaths (hstem : PlainStem file.stem) :
    (((derivedFor sub file).artifactPaths o).map fun p => Tree.straight [] p.parts).Nodup := by
  rw [artifactPaths_eq_of_plainStem hbase hextension hstem, List.map_map]
  have hendings : endings.Nodup := by decide
  exact hendings.map_on fun _ hending _ hending' heq =>
    (eq_of_straight_eq hstem hstem hending hending' heq).2

include hbase hextension in
theorem stem_eq_of_straight_eq {p q : Path} (hf : PlainStem f.stem) (hg : PlainStem g.stem)
    (hp : p ∈ (derivedFor sub f).artifactPaths o) (hq : q ∈ (derivedFor sub g).artifactPaths o)
    (h : Tree.straight [] p.parts = Tree.straight [] q.parts) : f.stem = g.stem := by
  rw [artifactPaths_eq_of_plainStem hbase hextension hf] at hp
  rw [artifactPaths_eq_of_plainStem hbase hextension hg] at hq
  obtain ⟨ending, hending, rfl⟩ := List.mem_map.1 hp
  obtain ⟨ending', hending', rfl⟩ := List.mem_map.1 hq
  exact (eq_of_straight_eq hf hg hending hending' h).1

end Straight

/-! ### Listed files -/

theorem ListedBelow.stem (h : ListedBelow t cwd sel directory f) (hnamed : t.Named)
    (hslashless : t.Slashless) : f.stem ≠ [] ∧ '/' ∉ f.stem := by
  obtain ⟨middle, name, rfl, -, hthere⟩ := h.between
  obtain ⟨place, hname⟩ := hthere name (by simp)
  have hparts := Path.stem_append_suffix ⟨directory.anchor, directory.parts ++ (middle ++ [name])⟩
  rw [← List.append_assoc, Path.name_append_singleton] at hparts
  obtain ⟨e, he, heq⟩ := List.mem_map.1 (Tree.mem_namesAt_iff.1 hname)
  have hmem : name ∈ e.1 := by simp [heq]
  have hentry := hnamed e he name hmem
  rw [← List.append_assoc]
  constructor
  · refine Path.stem_ne_nil ?_
    rw [Path.name_append_singleton]
    rintro rfl
    exact hentry.not_blank (.inl rfl)
  · intro hslash
    exact hslashless e he name hmem (hparts ▸ List.mem_append_left _ hslash)

theorem plainStem_of_mem_rootFiles {root : Path} {files : List Path} (hnamed : t.Named)
    (hslashless : t.Slashless) (h : rootFiles t cwd sel root = .ok files) (hf : f ∈ files)
    (hback : '\\' ∉ f.stem) : PlainStem f.stem := by
  obtain ⟨_, -, hbelow⟩ := rootFiles_eq_ok_iff.1 h
  obtain ⟨hne, hslash⟩ := (listedBelow_of_mem_filesBelow hbelow hf).stem hnamed hslashless
  exact ⟨hne, hslash, hback⟩

/-! ### Below the directory `flat` -/

theorem Path.Proper.not_mem_stem (h : file.Proper) : '/' ∉ file.stem := by
  intro hslash
  have hname : '/' ∈ file.name := Path.stem_append_suffix file ▸ List.mem_append_left _ hslash
  cases hlast : file.parts.getLast? with
  | none => simp [Path.name, List.getLastD_eq_getLast?, hlast] at hname
  | some last =>
      have hmem := List.mem_of_getLast? hlast
      simp only [Path.name, List.getLastD_eq_getLast?, hlast, Option.getD_some] at hname
      exact (h last hmem).2 hname

/-- Where no place is given for a target, it is the derived one, in no subdirectory if none is
given. -/
theorem placementOf_of_derived (file : Path) (sub : Option Text) :
    placementOf o ⟨file, .null, (sub.map Value.ofText).getD .null⟩ =
      Placement.ofTarget (derivedTarget file (sub.getD [])) o.baseDir := by
  cases sub with
  | none =>
      have hvalue : placeValue ⟨file, .null, .null⟩ = .ok (.ofText (derivedTarget file [])) := rfl
      simp only [Option.map_none, Option.getD_none, placementOf, hvalue, bind, Except.bind,
        placeText, Value.ofText, Points.text_ofText]
  | some sub => exact placementOf_derivedFor

/-- The target derived for a file goes below the directory `flat` of the base: its components are
those of the subdirectory, whatever slashes these stand between, and the stem of the file, by which
its artifacts are called. Where the subdirectory has no component `..` neither have the ways from
`flat` to the artifacts. -/
theorem derived_target_below_flat (hfile : file.Proper) (hne : file.stem ≠ [])
    (hback : '\\' ∉ file.stem) (hdot : file.stem ≠ ['.']) (hdots : file.stem ≠ ['.', '.'])
    (sub : Option Text)
    (hsub : ∀ t, sub = some t → ['.', '.'] ∉ Path.components (Text.forwardSlashes t))
    (base : Option Path) :
    ∃ place, Placement.ofTarget (derivedTarget file (sub.getD [])) base = .ok place ∧
      place.name = file.stem ∧
      place.directory = (base.getD .here).join ⟨.relative, "flat".toList ::
        (Path.components (Text.forwardSlashes (sub.getD [])) ++ [file.stem])⟩ ∧
      (∀ o, o.baseDir = base →
        placementOf o ⟨file, .null, (sub.map Value.ofText).getD .null⟩ = .ok place) ∧
      ∀ ending, '/' ∉ ending → ∃ q,
        (place.file ending).relativeTo? ((base.getD .here).joinText "flat".toList) = some q ∧
          ['.', '.'] ∉ q.parts := by
  have hstem : PlainStem file.stem := ⟨hne, hfile.not_mem_stem, hback⟩
  have hcomponent : Path.isComponent file.stem := by simp [Path.isComponent, hne, hdot]
  have hcomponents : Path.components file.stem = [file.stem] := by
    rw [Path.components_of_not_mem hfile.not_mem_stem, if_pos hcomponent]
  have hinside : ['.', '.'] ∉ Path.components (Text.forwardSlashes (sub.getD [])) := by
    cases sub with
    | none => decide
    | some t => exact hsub t rfl
  have hplace : Placement.ofTarget (derivedTarget file (sub.getD [])) base = .ok _ :=
    ofTarget_derivedTarget hstem base
  rw [hcomponents] at hplace
  refine ⟨_, hplace, rfl, rfl, fun o hbase => ?_, fun ending hending => ?_⟩
  · rw [placementOf_of_derived, hbase, hplace]
  · have hfinal : file.stem ++ ending ≠ ['.', '.'] := by
      intro hdouble
      rcases List.append_eq_cons_iff.1 hdouble with ⟨hnil, -⟩ | ⟨rest, hfront, hrest⟩
      · exact hne hnil
      · rcases List.append_eq_singleton_iff.1 hrest.symm with ⟨rfl, -⟩ | ⟨rfl, -⟩
        · exact hdot hfront
        · exact hdots hfront
    refine ⟨⟨.relative, Path.components (Text.forwardSlashes (sub.getD [])) ++
      [file.stem, file.stem ++ ending]⟩, ?_, ?_⟩
    · have hflat : Path.ofText "flat".toList = ⟨.relative, ["flat".toList]⟩ := by decide
      rw [Placement.file_eq hne hdot hfile.not_mem_stem hending, Path.relativeTo?_eq_some_iff,
        Path.joinText, hflat]
      simp [Path.join]
    · simp only [List.mem_append, List.mem_cons, List.not_mem_nil, or_false, not_or]
      exact ⟨hinside, Ne.symm hdots, Ne.symm hfinal⟩

theorem derived_target_below_flat_token :
    let file := Path.ofText "contracts/Token.sol".toList
    let sub := "\\/./tok//ens\\".toList
    file.Proper ∧ ['.', '.'] ∉ Path.components (Text.forwardSlashes sub) ∧
      ∃ place, Placement.ofTarget (derivedTarget file sub) (some ⟨.root, ["w".toList]⟩) =
          .ok place ∧ place.name = "Token".toList ∧
        place.directory = .ofText "/w/flat/tok/ens/Token".toList := by
  intro file sub
  have hfile : file.Proper := by
    unfold Path.Proper
    decide
  have hsub : ['.', '.'] ∉ Path.components (Text.forwardSlashes sub) := by decide
  obtain ⟨place, hplace, hname, hdirectory, -⟩ :=
    derived_target_below_flat hfile (by decide) (by decide) (by decide) (by decide) (some sub)
      (by rintro _ ⟨⟩; exact hsub) (some ⟨.root, ["w".toList]⟩)
  exact ⟨hfile, hsub, place, hplace, hname.trans (by decide), hdirectory.trans (by decide)⟩

end SolidityFlattener
