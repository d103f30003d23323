import SolidityFlattener.Proofs.Imports.Refusals
import SolidityFlattener.Run.Batch

/-!
What ends a batch.

A target whose root or sources lead nowhere is noted, and the batch goes on. There are three things
about a root and its sources that a search does not refuse in this way (`Site.Escapes`): a root in a
circle of links, a root whose path holds what no path of a system can (a null character, or half a
surrogate pair), and, in the first broken file, an import that is too long to ask for. Each of them
ends the batch, whatever targets are still to come.
-/

namespace SolidityFlattener

namespace Site

variable {site : Site} {extractor : Source.Extractor} {weight : Weight} {root : Path}
  {failure : Failure} {fault : Fault}

/-- How a search can end that has no result and is not refused for what leads nowhere. -/
inductive Escapes (site : Site) (extractor : Source.Extractor) (root : Path) : Fault → Prop
  | circle :
      site.tree.realPath true site.cwd root = .error .cyclicLinks →
        Escapes site extractor root .cyclicLinks
  | text {fault : Fault} :
      site.tree.realPath true site.cwd root = .error fault → fault.isOfText = true →
        Escapes site extractor root fault
  | tooLong {path p : Path} {specifier : Text} :
      site.tree.realPath true site.cwd root = .ok path →
        FirstMet (site.importsOf extractor) path (site.Broken extractor) p →
          site.FirstMissing extractor p specifier → site.NamesTooLong p specifier →
            Escapes site extractor root .nameTooLong

/-- A path that is not asked for is not said to lead nowhere. -/
theorem unresolvedOr_of_isOfText (h : fault.isOfText = true) :
    unresolvedOr failure fault = .system fault := by
  have hsystem : fault.isOfSystem = false := by
    cases fault <;> first | rfl | cases h
  rw [unresolvedOr, hsystem]
  rfl

theorem Proper.unresolved_or_system (hproper : site.Proper)
    (h : (discover site extractor weight root).outcome = .error failure) :
    failure.IsUnresolved ∨ ∃ fault, failure = .system fault := by
  rcases hproper.discover_eq_error_iff.1 h with
    ⟨fault, -, hfailure⟩ | ⟨path, p, -, -, hrefuses⟩
  · unfold unresolvedOr at hfailure
    split_ifs at hfailure
    · exact .inl ⟨_, _, _, hfailure.symm⟩
    · exact .inr ⟨fault, hfailure.symm⟩
  · cases hrefuses with
    | unreadable _ => exact .inl ⟨_, _, _, rfl⟩
    | missing _ _ => exact .inl ⟨_, _, _, rfl⟩
    | tooLong _ _ => exact .inr ⟨_, rfl⟩

theorem Proper.escapes_iff (hproper : site.Proper) :
    (discover site extractor weight root).outcome = .error (.system fault) ↔
      site.Escapes extractor root fault := by
  rw [hproper.discover_eq_error_iff]
  constructor
  · rintro (⟨other, hother, hfailure⟩ | ⟨path, p, hpath, hfirst, hrefuses⟩)
    · unfold unresolvedOr at hfailure
      split_ifs at hfailure with hsystem
      obtain rfl : other = fault := by simpa using hfailure
      cases other with
      | cyclicLinks => exact .circle hother
      | nulInPath => exact .text hother rfl
      | unencodable => exact .text hother rfl
      | _ => simp [Fault.isOfSystem] at hsystem
    · cases hrefuses with
      | tooLong hmissing hlong => exact .tooLong hpath hfirst hmissing hlong
  · intro h
    cases h with
    | circle hroot => exact .inl ⟨_, hroot, rfl⟩
    | text hroot htext => exact .inl ⟨_, hroot, unresolvedOr_of_isOfText htext⟩
    | tooLong hpath hfirst hmissing hlong =>
        exact .inr ⟨_, _, hpath, hfirst, .tooLong hmissing hlong⟩

end Site

/-! ### Failures on their way up -/

section Failures

variable {t t' : Tree} {cwd : Location} {o : Options} {extractor : Source.Extractor}
  {packageRoot : Option Path} {file : Path} {target : Target} {rest : List Target}
  {report : Report} {records : List Record} {failure : Failure}

theorem flattenSource_of_discover (hroot : packageRootOf t cwd o = .ok packageRoot)
    (h : (discover ⟨t, cwd, packageRoot⟩ extractor o.resolveWeight file).outcome =
      .error failure) : (flattenSource t cwd o extractor file).outcome = .error failure := by
  unfold flattenSource
  refine Trace.outcome_bind_eq_error_iff.2 (.inr ⟨(), rfl, ?_⟩)
  refine Trace.outcome_bind_eq_error_iff.2 (.inr ⟨packageRoot, mapError_eq_ok_iff.2 hroot, ?_⟩)
  exact Trace.outcome_bind_eq_error_iff.2 (.inl h)

/-- Nothing is written of a target that is not flattened. -/
theorem flattenFile_of_flattenSource
    (h : (flattenSource t cwd o Source.byLines target.file).outcome = .error failure) :
    flattenFile t cwd o target = (t, ⟨(planFile t cwd o target).records, .error failure⟩) := by
  have hplan : (planFile t cwd o target).outcome = .error failure := by
    unfold planFile
    refine Trace.outcome_bind_eq_error_iff.2 (.inr ⟨(), rfl, ?_⟩)
    refine Trace.outcome_bind_eq_error_iff.2 (.inr ⟨(), rfl, ?_⟩)
    exact Trace.outcome_bind_eq_error_iff.2 (.inl h)
  unfold flattenFile
  simp only [hplan]

/-- A failure of the target's own is noted, and the rest is done as without the target. -/
theorem batchFrom_of_isOfTarget
    (hfile : flattenFile t cwd o target = (t', ⟨records, .error failure⟩))
    (h : failure.isOfTarget) :
    (batchFrom cwd o t report (target :: rest)).1 = (batchFrom cwd o t'
        { report with failed := report.failed ++ [(target.file, failure)] } rest).1 ∧
      (batchFrom cwd o t report (target :: rest)).2.outcome = (batchFrom cwd o t'
        { report with failed := report.failed ++ [(target.file, failure)] } rest).2.outcome := by
  rw [batchFrom, hfile]
  simp [h]

/-- A target that is done is noted, and the rest is done on the tree that it leaves. -/
theorem batchFrom_of_ok {result : Path}
    (hfile : flattenFile t cwd o target = (t', ⟨records, .ok result⟩)) :
    (batchFrom cwd o t report (target :: rest)).1 =
        (batchFrom cwd o t'
          ⟨report.flattened ++ [(target.file, result)], report.failed⟩ rest).1 ∧
      (batchFrom cwd o t report (target :: rest)).2.outcome =
        (batchFrom cwd o t'
          ⟨report.flattened ++ [(target.file, result)], report.failed⟩ rest).2.outcome := by
  rw [batchFrom, hfile]
  exact ⟨rfl, rfl⟩

/-- Any other failure ends the batch. -/
theorem batchFrom_of_not_isOfTarget
    (hfile : flattenFile t cwd o target = (t', ⟨records, .error failure⟩))
    (h : ¬failure.isOfTarget) :
    batchFrom cwd o t report (target :: rest) = (t', ⟨records, .error failure⟩) := by
  rw [batchFrom, hfile]
  simp [h]

theorem Failure.IsUnresolved.isOfTarget (h : failure.IsUnresolved) : failure.isOfTarget := by
  obtain ⟨specifier, importer, candidate, rfl⟩ := h
  rfl

end Failures

/-! ### A root that leads back to itself, and an import that is too long -/

section Snag

def longName : Text := List.replicate 252 'a' ++ ".sol".toList

def longText : Text := "import \"./".toList ++ longName ++ "\";".toList

def snagTree (content : ByteArray) : Tree where
  entries := [(["loop.sol".toList], .link "loop.sol".toList), (["R.sol".toList], .file content)]

/-- A link to itself, and a file with an import of a longer name than a system has. -/
def snagSite : Site := ⟨snagTree longText.toUtf8, [], none⟩

def snagTargets : List Target :=
  [⟨.ofText "loop.sol".toList, .null, .null⟩, ⟨.ofText "R.sol".toList, .null, .null⟩]

theorem snagSite_proper : snagSite.Proper where
  named := by
    unfold Tree.Named Tree.IsEntryName
    simp [snagSite, snagTree, Path.isComponent]
  cwd := Tree.Plain.root.realPath_ofLocation []
  nulFree := by
    unfold Tree.NulFree
    simp [snagSite, snagTree]
  packageRoot := by simp [snagSite]

theorem realPath_snag_loop (content : ByteArray) :
    (snagTree content).realPath true [] (.ofText "loop.sol".toList) = .error .cyclicLinks := by
  cbv

theorem realPath_snag_root (content : ByteArray) :
    (snagTree content).realPath true [] (.ofText "R.sol".toList) = .ok (Path.top "R.sol") := by
  cbv

theorem packageRootOf_snag (content : ByteArray) :
    packageRootOf (snagTree content) [] (.default []) = .ok none := by
  cbv

theorem locate_snag_root (content : ByteArray) :
    (snagTree content).locate .target [] (Path.top "R.sol") = .ok ["R.sol".toList] := by
  cbv

theorem namesTooLong_snag :
    snagSite.NamesTooLong (Path.top "R.sol") ("./".toList ++ longName) := by
  refine ⟨⟨.root, [longName]⟩, by decide +kernel, Tree.isFile_of_long ?_ ?_ ?_⟩
  · unfold Tree.IsEntryName
    decide +kernel
  · decide +kernel
  · decide +kernel

theorem firstMissing_snag :
    snagSite.FirstMissing Source.byLines (Path.top "R.sol") ("./".toList ++ longName) := by
  have hread : snagSite.tree.readText snagSite.cwd (Path.top "R.sol") = .ok longText := by
    refine (Tree.readText_of_lookup (locate_snag_root _) rfl).trans ?_
    decide +kernel
  exact ⟨longText, [], [], hread, by decide +kernel, by simp, namesTooLong_snag.not_namesFile⟩

theorem snag_loop_escapes :
    snagSite.Escapes Source.byLines (.ofText "loop.sol".toList) .cyclicLinks :=
  .circle (realPath_snag_loop _)

theorem snag_import_escapes :
    snagSite.Escapes Source.byLines (.ofText "R.sol".toList) .nameTooLong :=
  .tooLong (realPath_snag_root _) ⟨0, [], [], rfl, firstMissing_snag.broken, by simp⟩
    firstMissing_snag namesTooLong_snag

end Snag

/-- On a proper site a search has a result, is refused for what leads nowhere, or fails by a fault
of the system, the last exactly where its root or its sources let one escape. A batch notes a target
that is refused and does the rest as without it. A target that lets a fault escape ends the batch by
that fault, with the tree as it was and none of the rest done. -/
theorem batch_ends_where_search_escapes (site : Site) (hproper : site.Proper) :
    (∀ extractor weight root failure,
      (discover site extractor weight root).outcome = .error failure →
        failure.IsUnresolved ∨ ∃ fault, failure = .system fault) ∧
    (∀ extractor weight root fault,
      (discover site extractor weight root).outcome = .error (.system fault) ↔
        site.Escapes extractor root fault) ∧
    ∀ o target rest report, packageRootOf site.tree site.cwd o = .ok site.packageRoot →
      (∀ failure, failure.IsUnresolved →
        (discover site Source.byLines o.resolveWeight target.file).outcome = .error failure →
          (batchFrom site.cwd o site.tree report (target :: rest)).1 =
            (batchFrom site.cwd o site.tree
              { report with failed := report.failed ++ [(target.file, failure)] } rest).1 ∧
          (batchFrom site.cwd o site.tree report (target :: rest)).2.outcome =
            (batchFrom site.cwd o site.tree
              { report with failed := report.failed ++ [(target.file, failure)] } rest).2.outcome) ∧
      ∀ fault, site.Escapes Source.byLines target.file fault →
        (batchFrom site.cwd o site.tree report (target :: rest)).1 = site.tree ∧
        (batchFrom site.cwd o site.tree report (target :: rest)).2.outcome =
          .error (.system fault) := by
  refine ⟨fun _ _ _ _ => hproper.unresolved_or_system, fun _ _ _ _ => hproper.escapes_iff, ?_⟩
  intro o target rest report hroot
  constructor
  · intro failure hunresolved hdiscover
    have hfile := flattenFile_of_flattenSource (flattenSource_of_discover hroot hdiscover)
    exact batchFrom_of_isOfTarget hfile hunresolved.isOfTarget
  · intro fault hescapes
    have hdiscover : (discover site Source.byLines o.resolveWeight target.file).outcome =
        .error (.system fault) := hproper.escapes_iff.2 hescapes
    have hfile := flattenFile_of_flattenSource (flattenSource_of_discover hroot hdiscover)
    rw [batchFrom_of_not_isOfTarget hfile (by simp [Failure.isOfTarget])]
    exact ⟨rfl, rfl⟩

theorem batch_ends_at_snag :
    snagSite.Proper ∧ packageRootOf snagSite.tree [] (.default []) = .ok none ∧
      snagSite.Escapes Source.byLines (.ofText "loop.sol".toList) .cyclicLinks ∧
      (batch snagSite.tree [] (.default []) snagTargets).1 = snagSite.tree ∧
      (batch snagSite.tree [] (.default []) snagTargets).2.outcome =
        .error (.system .cyclicLinks) := by
  obtain ⟨-, -, hbatch⟩ := batch_ends_where_search_escapes snagSite snagSite_proper
  obtain ⟨-, hends⟩ := hbatch (.default []) ⟨.ofText "loop.sol".toList, .null, .null⟩
    [⟨.ofText "R.sol".toList, .null, .null⟩] .empty (packageRootOf_snag _)
  exact ⟨snagSite_proper, packageRootOf_snag _, snag_loop_escapes, hends _ snag_loop_escapes⟩

/-- Neither a root in a circle of links nor an import that is too long is refused as leading
nowhere. -/
theorem discover_snag_not_refused :
    (discover snagSite Source.byLines .debug (.ofText "loop.sol".toList)).outcome =
        .error (.system .cyclicLinks) ∧
      (discover snagSite Source.byLines .debug (.ofText "R.sol".toList)).outcome =
        .error (.system .nameTooLong) ∧
      ¬∀ root failure, (discover snagSite Source.byLines .debug root).outcome = .error failure →
        failure.IsUnresolved := by
  have hloop : (discover snagSite Source.byLines .debug (.ofText "loop.sol".toList)).outcome =
      .error (.system .cyclicLinks) := snagSite_proper.escapes_iff.2 snag_loop_escapes
  refine ⟨hloop, snagSite_proper.escapes_iff.2 snag_import_escapes, fun hrefused => ?_⟩
  exact Failure.not_isUnresolved_system _ (hrefused _ _ hloop)

end SolidityFlattener
