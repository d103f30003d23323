import SolidityFlattener.CommandLine.Command
import SolidityFlattener.Proofs.Run.DerivedPlaces
import SolidityFlattener.Proofs.Run.Succession

/-!
The command over a directory.

`DirectoryRun` holds what there is to a command over a directory that answers zero: the files that
are listed, at least one, and what is planned and written for each of them, in the order of the
list. A command answers zero exactly where there is one.
-/

namespace SolidityFlattener.CommandLine

variable {t t' : Tree} {cwd : Location} {a : Arguments} {dir sub : Text} {files : List Path}
  {targets : List Target} {gathered : BatchFile}

/-- Arguments that ask for the files below a directory, with derived places. -/
structure OverDirectory (a : Arguments) (dir sub : Text) : Prop where
  batch : nonEmpty a.batch = none
  file : nonEmpty a.file = none
  dir : a.dir = some dir
  outAuto : a.outAuto = some sub

/-- What there is to a command over a directory that answers zero. -/
structure DirectoryRun (t : Tree) (cwd : Location) (a : Arguments) (dir sub : Text)
    (files : List Path) (t' : Tree) where
  options : Options
  steps : List (Target × Plan)
  isDirectory : t.isDirectory cwd (.ofText dir) = .ok true
  out_eq : a.out = none
  listed : rootFiles t cwd .default (.ofText dir) = .ok files
  files_ne : files ≠ []
  options_eq : optionsOf cwd a ⟨files.map (derivedFor sub), .null, none⟩ = .ok options
  targets_eq : steps.map Prod.fst = files.map (derivedFor sub)
  written : Written cwd options t steps t'

/-! ### Targets and options -/

theorem directoryTargets_eq_ok_iff (h : OverDirectory a dir sub) :
    directoryTargets t cwd a = .ok targets ↔
      t.isDirectory cwd (.ofText dir) = .ok true ∧ a.out = none ∧
        ∃ files, rootFiles t cwd .default (.ofText dir) = .ok files ∧
          targets = files.map (derivedFor sub) := by
  have hmake : ∀ files : List Path,
      files.mapM (fun file => Target.make file .null (given a.outAuto)) =
        .ok (files.map (derivedFor sub)) := by
    intro files
    rw [h.outAuto]
    exact List.mapM_pure
  unfold directoryTargets
  rw [h.dir]
  simp only [bind_eq_ok_iff, mapError_eq_ok_iff, hmake]
  constructor
  · rintro ⟨isDirectory, hdir, hrest⟩
    split_ifs at hrest with hnot hout hauto
    · obtain rfl : isDirectory = true := by simpa using hnot
      obtain ⟨files, hfiles, heq⟩ := bind_eq_ok_iff.1 hrest
      exact ⟨hdir, by simpa using hout, files, mapError_eq_ok_iff.1 hfiles,
        (Except.ok.inj heq).symm⟩
  · rintro ⟨hdir, hout, files, hfiles, rfl⟩
    exact ⟨true, hdir, by simp [hout, h.outAuto, hfiles, Except.mapError, bind, Except.bind]⟩

theorem gather_eq_ok_iff (h : OverDirectory a dir sub) :
    gather t cwd a = .ok gathered ↔
      ∃ targets, directoryTargets t cwd a = .ok targets ∧ gathered = ⟨targets, .null, none⟩ := by
  unfold gather
  rw [h.batch, h.file]
  simp only [bind_eq_ok_iff]
  exact exists_congr fun targets => and_congr_right fun _ =>
    ⟨fun heq => (Except.ok.inj heq).symm, fun heq => congrArg _ heq.symm⟩

/-- What is gathered are the listed files. -/
theorem OverDirectory.eq_of_gather (h : OverDirectory a dir sub)
    (hfiles : rootFiles t cwd .default (.ofText dir) = .ok files)
    (hgather : gather t cwd a = .ok gathered) :
    t.isDirectory cwd (.ofText dir) = .ok true ∧ a.out = none ∧
      gathered = ⟨files.map (derivedFor sub), .null, none⟩ := by
  obtain ⟨targets, htargets, rfl⟩ := (gather_eq_ok_iff h).1 hgather
  obtain ⟨hdir, hout, listed, hlisted, rfl⟩ := (directoryTargets_eq_ok_iff h).1 htargets
  obtain rfl : files = listed := Except.ok.inj (hfiles.symm.trans hlisted)
  exact ⟨hdir, hout, rfl⟩

/-- The options of a command over a directory do not depend on what is listed. -/
theorem exists_optionsOf (cwd : Location) (a : Arguments) (targets : List Target) :
    ∃ o, optionsOf cwd a ⟨targets, .null, none⟩ = .ok o ∧
      o.baseDir = some (.ofLocation cwd) ∧ o.flatExtension = ".sol".toList := by
  unfold optionsOf
  cases a.evmVersion with
  | none => exact ⟨_, rfl, rfl, rfl⟩
  | some version => exact ⟨_, rfl, rfl, rfl⟩

/-! ### The run -/

/-- A command with targets leaves the tree of their batch, and its status is told by the report. -/
theorem run_of_targets {o : Options} (hgather : gather t cwd a = .ok gathered)
    (ho : optionsOf cwd a gathered = .ok o) (hne : gathered.targets ≠ []) :
    (run t cwd a).1 = (batch t cwd o gathered.targets).1 ∧
      (run t cwd a).2.outcome = (batch t cwd o gathered.targets).2.outcome.map
        fun report => if report.ok then 0 else 1 := by
  obtain ⟨first, rest, htargets⟩ := List.exists_cons_of_ne_nil hne
  have hprepared : (do
      let gathered ← gather t cwd a
      return (gathered.targets, ← optionsOf cwd a gathered)) =
      (.ok (gathered.targets, o) : Except Failure (List Target × Options)) := by
    rw [hgather]
    change (optionsOf cwd a gathered >>= _) = _
    rw [ho]
    rfl
  unfold run
  simp only [hprepared, htargets]
  rcases batch t cwd o (first :: rest) with ⟨after, records, failure | report⟩
  · exact ⟨rfl, rfl⟩
  · cases hok : report.ok <;> simp [hok, Except.map]

/-- What a command does with its targets. -/
theorem run_of_gather {o : Options} (hgather : gather t cwd a = .ok gathered)
    (ho : optionsOf cwd a gathered = .ok o) (hne : gathered.targets ≠ []) :
    (run t cwd a).1 = (batch t cwd o gathered.targets).1 ∧
      ((run t cwd a).2.outcome = .ok 0 ↔
        ∃ report, (batch t cwd o gathered.targets).2.outcome = .ok report ∧ report.ok) := by
  obtain ⟨htree, houtcome⟩ := run_of_targets hgather ho hne
  refine ⟨htree, ?_⟩
  rw [houtcome]
  cases (batch t cwd o gathered.targets).2.outcome with
  | error failure => simp [Except.map]
  | ok report => cases hok : report.ok <;> simp [hok, Except.map]

theorem nonempty_directoryRun_of_run (h : OverDirectory a dir sub)
    (hfiles : rootFiles t cwd .default (.ofText dir) = .ok files)
    (hrun : (run t cwd a).2.outcome = .ok 0) :
    Nonempty (DirectoryRun t cwd a dir sub files (run t cwd a).1) := by
  cases hgather : gather t cwd a with
  | error failure =>
      unfold run at hrun
      simp only [hgather, bind, Except.bind] at hrun
      split at hrun <;> simp at hrun
  | ok gathered =>
      obtain ⟨hdir, hout, rfl⟩ := h.eq_of_gather hfiles hgather
      obtain ⟨o, ho, -⟩ := exists_optionsOf cwd a (files.map (derivedFor sub))
      -- where nothing is listed the command fails instead of answering zero
      have hne : files ≠ [] := by
        rintro rfl
        rw [List.map_nil] at hgather ho
        unfold run at hrun
        simp [hgather, ho, bind, Except.bind, pure, Except.pure] at hrun
      obtain ⟨htree, hstatus⟩ := run_of_gather hgather ho (by simpa using hne)
      obtain ⟨steps, hsteps, hwritten⟩ := batch_ok_iff.1 (hstatus.1 hrun)
      rw [htree]
      exact ⟨⟨o, steps, hdir, hout, hfiles, hne, ho, hsteps, hwritten⟩⟩

theorem DirectoryRun.run_eq (r : DirectoryRun t cwd a dir sub files t')
    (h : OverDirectory a dir sub) :
    (run t cwd a).1 = t' ∧ (run t cwd a).2.outcome = .ok 0 := by
  have htargets : directoryTargets t cwd a = .ok (files.map (derivedFor sub)) :=
    (directoryTargets_eq_ok_iff h).2 ⟨r.isDirectory, r.out_eq, files, r.listed, rfl⟩
  have hgather := (gather_eq_ok_iff h).2 ⟨_, htargets, rfl⟩
  obtain ⟨htree, hstatus⟩ := run_of_gather hgather r.options_eq (by simpa using r.files_ne)
  have hbatch : (batch t cwd r.options (files.map (derivedFor sub))).1 = t' :=
    r.targets_eq ▸ r.written.batch_eq
  refine ⟨htree.trans hbatch, hstatus.2 (batch_ok_iff.2 ⟨r.steps, r.targets_eq, ?_⟩)⟩
  change Written cwd r.options t r.steps (batch t cwd r.options (files.map (derivedFor sub))).1
  rw [hbatch]
  exact r.written

namespace DirectoryRun

variable {before after : List Path} {f : Path} {step : Target × Plan}

theorem baseDir_eq (r : DirectoryRun t cwd a dir sub files t') :
    r.options.baseDir = some (.ofLocation cwd) ∧ r.options.flatExtension = ".sol".toList := by
  obtain ⟨o, ho, hoptions⟩ := exists_optionsOf cwd a (files.map (derivedFor sub))
  rwa [Except.ok.inj (r.options_eq.symm.trans ho)]

/-- The step that is taken for one of the listed files. -/
theorem exists_step (r : DirectoryRun t cwd a dir sub files t')
    (hsplit : files = before ++ f :: after) :
    ∃ (earlier later : List (Target × Plan)) (plan : Plan),
      r.steps = earlier ++ (derivedFor sub f, plan) :: later ∧
        earlier.map Prod.fst = before.map (derivedFor sub) ∧
          later.map Prod.fst = after.map (derivedFor sub) := by
  subst hsplit
  have htargets := r.targets_eq
  rw [List.map_append, List.map_cons, List.map_eq_append_iff] at htargets
  obtain ⟨earlier, rest, hsteps, hearlier, hrest⟩ := htargets
  obtain ⟨⟨target, plan⟩, later, rfl, rfl, hlater⟩ := List.map_eq_cons_iff.1 hrest
  exact ⟨earlier, later, plan, hsteps, hearlier, hlater⟩

/-- The file that a step is taken for. -/
theorem exists_file (r : DirectoryRun t cwd a dir sub files t') (hstep : step ∈ r.steps) :
    ∃ f ∈ files, derivedFor sub f = step.1 :=
  List.mem_map.1 (r.targets_eq ▸ List.mem_map_of_mem hstep)

end DirectoryRun

/-! ### Two files of one stem -/

section Twins

/-- A file that imports nothing is flattened by itself. -/
theorem exists_bundle_of_lone {extractor : Source.Extractor} {o : Options} {root base place : Path}
    {packageRoot : Option Path} {n : Node} {newline : Text}
    (hpackage : packageRootOf t cwd o = .ok packageRoot)
    (hreal : t.realPath true cwd root = .ok n.path)
    (hload : loadNode ⟨t, cwd, packageRoot⟩ extractor n.path 0 = .ok n) (himports : n.imports = [])
    (horder : (Registry.empty.add n).linkInheritance.order = .ok [n])
    (hnewline : o.newline = some newline) (hbase : o.baseDir = some base)
    (hplace : t.realPath false cwd base = .ok place) :
    ∃ bundle, (flattenSource t cwd o extractor root).outcome = .ok bundle := by
  have hget : (Registry.empty.add n).get? n.path = some n :=
    Registry.get?_path (by simp)
  have hvisit : (Search.visit ⟨t, cwd, packageRoot⟩ extractor o.resolveWeight
      ⟨Registry.empty.add n, []⟩ n.path).outcome = .ok ⟨Registry.empty.add n, []⟩ := by
    rw [Search.visit_eq_ok_iff hget, himports]
    rfl
  have hdiscover : (discover ⟨t, cwd, packageRoot⟩ extractor o.resolveWeight root).outcome =
      .ok (n.path, (Registry.empty.add n).linkInheritance) := by
    refine discover_eq_ok_iff.2 ⟨hreal, n, hload, _, (Search.outcome_run_cons hvisit).trans ?_, rfl⟩
    cases t.entries.length <;> rfl
  obtain ⟨bundle, f, -⟩ := exists_flattening n hpackage hdiscover horder (by simp) hnewline
    (exists_labelBase hbase hplace _)
  exact ⟨bundle, flattenSource_eq_ok_iff.2 ⟨f⟩⟩

/-- Two directories with a file each, both of one name. -/
def twinTree : Tree := ⟨[
  (["a".toList], .directory),
  (["a".toList, "X.sol".toList], .file (Text.toUtf8 "contract A \x7b\x7d".toList)),
  (["b".toList], .directory),
  (["b".toList, "X.sol".toList], .file (Text.toUtf8 "contract B \x7b\x7d".toList))]⟩

/-- The two with the artifacts of one of them, which are in the same places for both. -/
def twinWritten (info flat input : Text) : Tree := ⟨twinTree.entries ++ [
  (["flat".toList], .directory),
  (["flat".toList, "X".toList], .directory),
  (["flat".toList, "X".toList, "X.info.json".toList], .file info.toUtf8),
  (["flat".toList, "X".toList, "X.sol".toList], .file flat.toUtf8),
  (["flat".toList, "X".toList, "X.json".toList], .file input.toUtf8)]⟩

def twinFile (parent : String) : Path := ⟨.root, [parent.toList, "X.sol".toList]⟩

def twinNode (parent body : String) : Node :=
  { Node.ofPath (twinFile parent) with body := [body.toList] }

def twinPlacement : Placement := ⟨⟨.root, ["flat".toList, "X".toList]⟩, "X".toList⟩

def twinArguments : Arguments :=
  { Arguments.none with dir := some ".".toList, outAuto := some [] }

theorem twinArguments_overDirectory : OverDirectory twinArguments ".".toList [] :=
  ⟨rfl, rfl, rfl, rfl⟩

theorem rootFiles_twins :
    rootFiles twinTree [] .default (.ofText ".".toList) = .ok [twinFile "a", twinFile "b"] := by
  cbv

theorem twins_sound : Site.Sound ⟨twinTree, [], none⟩ where
  named := by
    unfold Tree.Named Tree.IsEntryName
    decide
  cwd := by cbv

theorem twins_slashless : twinTree.Slashless := by
  unfold Tree.Slashless
  decide

theorem exists_written_twin {parent body : String}
    (hpackage : packageRootOf t [] (.default []) = .ok none)
    (hbase : t.realPath false [] (.ofLocation []) = .ok (.ofLocation []))
    (hsettings : (compilerSettings t [] (.default [])).outcome = .ok none)
    (hreal : t.realPath true [] (twinFile parent) = .ok (twinFile parent))
    (hload : loadNode ⟨t, [], none⟩ Source.byLines (twinFile parent) 0 = .ok (twinNode parent body))
    (horder : (Registry.empty.add (twinNode parent body)).linkInheritance.order =
      .ok [twinNode parent body])
    (hplace : placementOf (.default []) (derivedFor [] (twinFile parent)) = .ok twinPlacement)
    (hwrite : ∀ (bundle : Bundle) (document : Value), writeAll t [] twinPlacement
        (drafts bundle twinPlacement document (Options.default []).flatExtension) =
      (twinWritten (bundle.manifestDocument.json documentIndent) bundle.flatText
        (document.json documentIndent), .ok ())) :
    ∃ plan info flat input,
      (planFile t [] (.default []) (derivedFor [] (twinFile parent))).outcome = .ok plan ∧
        writeAll t [] plan.place plan.files = (twinWritten info flat input, .ok ()) := by
  obtain ⟨bundle, hbundle⟩ :=
    exists_bundle_of_lone (n := twinNode parent body) hpackage hreal hload rfl horder rfl rfl hbase
  exact ⟨_, _, _, _, planFile_eq_ok_iff.2 ⟨bundle, none, twinPlacement, hbundle, hsettings, hplace,
    rfl⟩, hwrite bundle _⟩

theorem writeAll_twinTree (bundle : Bundle) (document : Value) :
    writeAll twinTree [] twinPlacement
        (drafts bundle twinPlacement document (Options.default []).flatExtension) =
      (twinWritten (bundle.manifestDocument.json documentIndent) bundle.flatText
        (document.json documentIndent), .ok ()) := by
  unfold drafts
  generalize bundle.manifestDocument.json documentIndent = info
  generalize bundle.flatText = flat
  generalize document.json documentIndent = input
  cbv

theorem writeAll_twinWritten (info flat input : Text) (bundle : Bundle) (document : Value) :
    writeAll (twinWritten info flat input) [] twinPlacement
        (drafts bundle twinPlacement document (Options.default []).flatExtension) =
      (twinWritten (bundle.manifestDocument.json documentIndent) bundle.flatText
        (document.json documentIndent), .ok ()) := by
  unfold drafts
  generalize bundle.manifestDocument.json documentIndent = info'
  generalize bundle.flatText = flat'
  generalize document.json documentIndent = input'
  cbv

/-- The artifacts of the second file are written over those of the first one. -/
theorem exists_directoryRun_twins :
    ∃ info flat input, Nonempty (DirectoryRun twinTree [] twinArguments ".".toList []
      [twinFile "a", twinFile "b"] (twinWritten info flat input)) := by
  have hloadA : loadNode ⟨twinTree, [], none⟩ Source.byLines (twinFile "a") 0 =
      .ok (twinNode "a" "contract A \x7b\x7d") :=
    Site.loadNode_eq ⟨[], [], ["contract A \x7b\x7d".toList]⟩ [] [] 0 (by cbv)
      (by decide +kernel) (by decide +kernel) (by cbv)
  obtain ⟨planA, info, flat, input, hplanA, hwriteA⟩ := exists_written_twin
    (by cbv) (by cbv) (by cbv) (by cbv) hloadA (by cbv) (by cbv) writeAll_twinTree
  -- the second file is read after the artifacts of the first one are written
  have hloadB : loadNode ⟨twinWritten info flat input, [], none⟩ Source.byLines (twinFile "b") 0 =
      .ok (twinNode "b" "contract B \x7b\x7d") :=
    Site.loadNode_eq ⟨[], [], ["contract B \x7b\x7d".toList]⟩ [] [] 0 (by cbv)
      (by decide +kernel) (by decide +kernel) (by cbv)
  obtain ⟨planB, _, _, _, hplanB, hwriteB⟩ := exists_written_twin (by cbv) (by cbv) (by cbv)
    (by cbv) hloadB (by cbv) (by cbv) (writeAll_twinWritten info flat input)
  exact ⟨_, _, _, ⟨{
    options := .default []
    steps := [(derivedFor [] (twinFile "a"), planA), (derivedFor [] (twinFile "b"), planB)]
    isDirectory := by cbv
    out_eq := rfl
    listed := rootFiles_twins
    files_ne := by simp
    options_eq := rfl
    targets_eq := rfl
    written := .cons hplanA hwriteA (.cons hplanB hwriteB .nil) }⟩⟩

end Twins

end SolidityFlattener.CommandLine
