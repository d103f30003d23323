import SolidityFlattener.Proofs.Run.MistypedTargets
import SolidityFlattener.Proofs.Run.Overwriting
import SolidityFlattener.Proofs.Run.TargetsApart

/-!
What the status of a command tells.

A command that answers was refused before its batch, had nothing to flatten, or took all its targets
one after another, each on the tree that the ones before it left. A target that fails in a batch
that goes on leaves that tree as it is, and what is written for one that is done is still there at
the end. The status is zero exactly where there were targets and none of them failed.
-/

namespace SolidityFlattener

variable {t : Tree} {cwd : Location} {o : Options} {target : Target}
  {targets before after : List Target} {report final : Report}

/-! ### Batches that go through -/

/-- What is noted on the way does not matter to the tree. -/
theorem batchFrom_fst (t : Tree) (cwd : Location) (o : Options) (report : Report)
    (targets : List Target) : (batchFrom cwd o t report targets).1 = (batch t cwd o targets).1 := by
  suffices h : ∀ report', (batchFrom cwd o t report targets).1 =
      (batchFrom cwd o t report' targets).1 from h .empty
  induction targets generalizing t report with
  | nil => exact fun _ => rfl
  | cons target rest ih =>
      intro report'
      rcases hfile : flattenFile t cwd o target with ⟨u, records, failure | result⟩
      · by_cases hown : failure.isOfTarget
        · rw [(batchFrom_of_isOfTarget hfile hown).1, (batchFrom_of_isOfTarget hfile hown).1]
          exact ih ..
        · rw [batchFrom_of_not_isOfTarget hfile hown, batchFrom_of_not_isOfTarget hfile hown]
      · rw [(batchFrom_of_ok hfile).1, (batchFrom_of_ok hfile).1]
        exact ih ..

theorem settles_of_batchFrom
    (h : (batchFrom cwd o t report (target :: targets)).2.outcome = .ok final) :
    target.Settles t cwd o := by
  intro failure hfailure
  by_contra hown
  rcases hfile : flattenFile t cwd o target with ⟨u, records, outcome⟩
  obtain rfl : outcome = .error failure := by rw [hfile] at hfailure; exact hfailure
  rw [batchFrom_of_not_isOfTarget hfile hown] at h
  cases h

theorem batch_cons_fst (hsettles : target.Settles t cwd o) (rest : List Target) :
    (batch t cwd o (target :: rest)).1 =
      (batch (flattenFile t cwd o target).1 cwd o rest).1 :=
  (batchFrom_cons hsettles .empty rest).1.trans (batchFrom_fst ..)

/-- A batch that goes through, cut in two. -/
theorem batchFrom_append
    (h : (batchFrom cwd o t report (before ++ after)).2.outcome = .ok final) :
    ∃ noted, (batchFrom cwd o t report before).2.outcome = .ok noted ∧
      (batchFrom cwd o (batch t cwd o before).1 noted after).2.outcome = .ok final ∧
        (batch t cwd o (before ++ after)).1 =
          (batch (batch t cwd o before).1 cwd o after).1 := by
  induction before generalizing t report with
  | nil => exact ⟨report, rfl, h, rfl⟩
  | cons target before ih =>
      have hsettles := settles_of_batchFrom h
      obtain ⟨-, houtcome⟩ := batchFrom_cons hsettles report (before ++ after)
      obtain ⟨noted, hnoted, hrest, htree⟩ := ih (houtcome.symm.trans h)
      rw [List.cons_append, batch_cons_fst hsettles, batch_cons_fst hsettles]
      exact ⟨noted, (batchFrom_cons hsettles report before).2.trans hnoted, hrest, htree⟩

/-- A target of a batch that goes through, on the tree on which it is taken. -/
theorem settles_of_batch
    (h : (batchFrom cwd o t report (before ++ target :: after)).2.outcome = .ok final) :
    target.Settles (batch t cwd o before).1 cwd o ∧
      (batch t cwd o (before ++ [target])).1 =
        (flattenFile (batch t cwd o before).1 cwd o target).1 := by
  obtain ⟨noted, -, hrest, -⟩ := batchFrom_append h
  have hsettles := settles_of_batchFrom hrest
  rw [List.append_cons] at h
  obtain ⟨_, hfront, -⟩ := batchFrom_append h
  obtain ⟨_, -, -, htree⟩ := batchFrom_append hfront
  exact ⟨hsettles, htree.trans (batch_cons_fst hsettles [])⟩

theorem extends_batch (hcwd : t.Linkless cwd)
    (h : (batchFrom cwd o t report targets).2.outcome = .ok final) :
    t.Extends (batch t cwd o targets).1 := by
  induction targets generalizing t report with
  | nil => exact .refl t
  | cons target rest ih =>
      have hsettles := settles_of_batchFrom h
      have hfirst := hsettles.extends hcwd
      have hrest := ih (hfirst.linkless hcwd) ((batchFrom_cons hsettles report rest).2.symm.trans h)
      rw [batch_cons_fst hsettles]
      exact hfirst.trans hrest

/-- Nothing is noted as failed where no target fails on the tree on which it is taken. -/
theorem failed_eq_nil_iff (h : (batchFrom cwd o t report targets).2.outcome = .ok final) :
    final.failed = [] ↔ report.failed = [] ∧ ∀ before target after,
      targets = before ++ target :: after →
        ∃ result, (flattenFile (batch t cwd o before).1 cwd o target).2.outcome = .ok result := by
  induction targets generalizing t report with
  | nil =>
      obtain rfl : report = final := Except.ok.inj h
      simp
  | cons target rest ih =>
      have hsettles := settles_of_batchFrom h
      rw [ih ((batchFrom_cons hsettles report rest).2.symm.trans h), List.append_eq_nil_iff,
        Option.toList_eq_nil_iff, Target.failed?_eq_none_iff, and_assoc]
      refine and_congr_right fun _ => ⟨?_, fun hall => ⟨hall [] target rest rfl, ?_⟩⟩
      · rintro ⟨hdone, hrest⟩ before other after hsplit
        rcases List.cons_eq_append_iff.1 hsplit with ⟨rfl, heq⟩ | ⟨before, rfl, heq⟩
        · obtain ⟨rfl, rfl⟩ := List.cons_eq_cons.1 heq
          exact hdone
        · rw [batch_cons_fst hsettles]
          exact hrest before other after heq
      · rintro before other after rfl
        have hother := hall (target :: before) other after rfl
        rwa [batch_cons_fst hsettles] at hother

/-- What is written for a target that is done. -/
theorem isFile_of_flattenFile {result : Path} (hcwd : t.Linkless cwd)
    (h : (flattenFile t cwd o target).2.outcome = .ok result) :
    ∃ place, placementOf o target = .ok place ∧
      ∀ u, (flattenFile t cwd o target).1.Extends u →
        ∀ ending ∈ [".info.json".toList, o.flatExtension, ".json".toList],
          u.isFile cwd (place.file ending) = .ok true := by
  obtain ⟨plan, hplan, hwrite, -⟩ := flattenFile_eq_ok_iff.1 h
  obtain ⟨-, -, place, -, -, hplace, -⟩ := planFile_eq_ok_iff.1 hplan
  have hwritten : Written cwd o t [(target, plan)] (flattenFile t cwd o target).1 :=
    .cons hplan hwrite .nil
  have hpaths : plan.files.map Draft.path =
      [".info.json".toList, o.flatExtension, ".json".toList].map place.file := by
    rw [map_path_of_planFile hplan, Target.artifactPaths, hplace]
  refine ⟨place, hplace, fun u hextends ending hending => ?_⟩
  have hdraft : place.file ending ∈ plan.files.map Draft.path :=
    hpaths ▸ List.mem_map_of_mem hending
  obtain ⟨d, hd, hpath⟩ := List.mem_map.1 hdraft
  obtain ⟨front, back, hfiles⟩ := List.append_of_mem hd
  obtain ⟨found, content, -, hlocate, hfile, -⟩ :=
    (show Written cwd o t ([] ++ (target, plan) :: []) _ from hwritten).exists_file hcwd hfiles
  obtain ⟨content, hcontent⟩ := hextends.exists_file hfile
  rw [← hpath]
  exact Tree.isFile_of_lookup (hextends.locate hlocate) hcontent

/-- What comes of one target of a batch that goes through: its artifacts are there when all targets
are taken, or it has failed by its own and changed nothing. -/
theorem batch_turn (hcwd : t.Linkless cwd)
    (h : (batch t cwd o (before ++ target :: after)).2.outcome = .ok final) :
    (∃ result place,
      (flattenFile (batch t cwd o before).1 cwd o target).2.outcome = .ok result ∧
        placementOf o target = .ok place ∧
          ∀ ending ∈ [".info.json".toList, o.flatExtension, ".json".toList],
            (batch t cwd o (before ++ target :: after)).1.isFile cwd (place.file ending) =
              .ok true) ∨
      ∃ failure, failure.isOfTarget ∧ final.failed ≠ [] ∧
        (flattenFile (batch t cwd o before).1 cwd o target).2.outcome = .error failure ∧
          (flattenFile (batch t cwd o before).1 cwd o target).1 = (batch t cwd o before).1 := by
  obtain ⟨noted, hbefore, hrest, htree⟩ := batchFrom_append h
  have hsettles := settles_of_batchFrom hrest
  have hhere := (extends_batch hcwd hbefore).linkless hcwd
  cases hfile : (flattenFile (batch t cwd o before).1 cwd o target).2.outcome with
  | ok result =>
      obtain ⟨place, hplace, hfiles⟩ := isFile_of_flattenFile hhere hfile
      have hextends : (flattenFile (batch t cwd o before).1 cwd o target).1.Extends
          (batch t cwd o (before ++ target :: after)).1 := by
        have hafter := (batchFrom_cons hsettles noted after).2.symm.trans hrest
        rw [htree, batch_cons_fst hsettles]
        exact extends_batch ((hsettles.extends hhere).linkless hhere) hafter
      exact .inl ⟨result, place, rfl, hplace, hfiles _ hextends⟩
  | error failure =>
      have hown := hsettles failure hfile
      have hkept := flattenFile_of_not_planned (planFile_of_isOfTarget hfile hown)
      refine .inr ⟨failure, hown, fun hnone => ?_, rfl, by rw [hkept]⟩
      obtain ⟨result, hresult⟩ := ((failed_eq_nil_iff h).1 hnone).2 before target after rfl
      cases hfile.symm.trans hresult

/-! ### Commands that answer -/

namespace CommandLine

variable {a : Arguments} {gathered : BatchFile} {status : ℕ} {failure : Failure}

/-- There is a failure with the targets of a command or with its options. -/
def Unprepared (t : Tree) (cwd : Location) (a : Arguments) (failure : Failure) : Prop :=
  gather t cwd a = .error failure ∨
    ∃ gathered, gather t cwd a = .ok gathered ∧ optionsOf cwd a gathered = .error failure

theorem not_unprepared (hgather : gather t cwd a = .ok gathered)
    (ho : optionsOf cwd a gathered = .ok o) : ¬Unprepared t cwd a failure := by
  rintro (hfails | ⟨other, hother, hfails⟩)
  · cases hgather.symm.trans hfails
  · obtain rfl := Except.ok.inj (hgather.symm.trans hother)
    cases ho.symm.trans hfails

theorem run_of_unprepared (h : Unprepared t cwd a failure) :
    (run t cwd a).1 = t ∧ (run t cwd a).2.outcome =
      match failure with
      | .config _ => .ok 1
      | _ => .error failure := by
  have hprepared : (do
      let gathered ← gather t cwd a
      return (gathered.targets, ← optionsOf cwd a gathered)) =
      (.error failure : Except Failure (List Target × Options)) := by
    rcases h with hgather | ⟨gathered, hgather, ho⟩
    · rw [hgather]
      rfl
    · rw [hgather]
      change (optionsOf cwd a gathered >>= _) = _
      rw [ho]
      rfl
  unfold run
  simp only [hprepared]
  cases failure <;> exact ⟨rfl, rfl⟩

theorem run_of_no_targets (hgather : gather t cwd a = .ok gathered)
    (ho : optionsOf cwd a gathered = .ok o) (hnone : gathered.targets = []) :
    (run t cwd a).1 = t ∧ (run t cwd a).2.outcome = .ok 1 := by
  unfold run
  simp [hgather, ho, hnone, bind, Except.bind, pure, Except.pure]

/-- How a command comes to its status and to the tree that it leaves: it is refused, it has nothing
to flatten, or it takes its targets. -/
inductive Answers (t : Tree) (cwd : Location) (a : Arguments) : ℕ → Tree → Prop
  | refused {fault : ConfigFault} : Unprepared t cwd a (.config fault) → Answers t cwd a 1 t
  | idle {gathered : BatchFile} {o : Options} :
      gather t cwd a = .ok gathered → optionsOf cwd a gathered = .ok o → gathered.targets = [] →
        Answers t cwd a 1 t
  | ran {gathered : BatchFile} {o : Options} {report : Report} :
      gather t cwd a = .ok gathered → optionsOf cwd a gathered = .ok o → gathered.targets ≠ [] →
        (batch t cwd o gathered.targets).2.outcome = .ok report →
          Answers t cwd a (if report.ok then 0 else 1) (batch t cwd o gathered.targets).1

theorem answers_of_run (h : (run t cwd a).2.outcome = .ok status) :
    Answers t cwd a status (run t cwd a).1 := by
  have hrefused : ∀ {failure}, Unprepared t cwd a failure →
      Answers t cwd a status (run t cwd a).1 := by
    intro failure hfailure
    obtain ⟨htree, houtcome⟩ := run_of_unprepared hfailure
    rw [houtcome] at h
    rw [htree]
    cases failure <;> cases h
    exact .refused hfailure
  cases hgather : gather t cwd a with
  | error failure => exact hrefused (.inl hgather)
  | ok gathered =>
      cases ho : optionsOf cwd a gathered with
      | error failure => exact hrefused (.inr ⟨gathered, hgather, ho⟩)
      | ok o =>
          by_cases hnone : gathered.targets = []
          · obtain ⟨htree, houtcome⟩ := run_of_no_targets hgather ho hnone
            cases houtcome.symm.trans h
            rw [htree]
            exact .idle hgather ho hnone
          · obtain ⟨htree, houtcome⟩ := run_of_targets hgather ho hnone
            rw [houtcome] at h
            rw [htree]
            cases hreport : (batch t cwd o gathered.targets).2.outcome with
            | error failure =>
                rw [hreport] at h
                cases h
            | ok report =>
                rw [hreport] at h
                obtain rfl : (if report.ok then 0 else 1) = status := Except.ok.inj h
                exact .ran hgather ho hnone hreport

namespace Answers

variable {left : Tree}

theorem zero_or_one (h : Answers t cwd a status left) : status = 0 ∨ status = 1 := by
  cases h with
  | refused | idle => exact .inr rfl
  | @ran _ _ report => cases report.ok <;> simp

theorem eq_zero_iff (h : Answers t cwd a status left) :
    status = 0 ↔ ∃ gathered o, gather t cwd a = .ok gathered ∧
      optionsOf cwd a gathered = .ok o ∧ gathered.targets ≠ [] ∧
        ∀ before target after, gathered.targets = before ++ target :: after →
          ∃ result, (flattenFile (batch t cwd o before).1 cwd o target).2.outcome =
            .ok result := by
  cases h with
  | refused hrefused =>
      simp only [one_ne_zero, false_iff]
      rintro ⟨gathered, o, hgather, ho, -⟩
      exact not_unprepared hgather ho hrefused
  | idle hgather ho hnone =>
      simp only [one_ne_zero, false_iff]
      rintro ⟨other, -, hother, -, hne, -⟩
      obtain rfl := Except.ok.inj (hgather.symm.trans hother)
      exact hne hnone
  | @ran gathered o report hgather ho hne hreport =>
      have hzero : (if report.ok then 0 else 1) = 0 ↔ report.failed = [] := by
        rw [← List.isEmpty_iff, ← Report.ok]
        cases report.ok <;> simp
      rw [hzero, failed_eq_nil_iff hreport]
      constructor
      · rintro ⟨-, hall⟩
        exact ⟨gathered, o, hgather, ho, hne, hall⟩
      · rintro ⟨other, o', hother, ho', -, hall⟩
        obtain rfl := Except.ok.inj (hgather.symm.trans hother)
        obtain rfl := Except.ok.inj (ho.symm.trans ho')
        exact ⟨rfl, hall⟩

theorem eq_of_not_run (h : Answers t cwd a status left)
    (hnot : (∃ fault, Unprepared t cwd a (.config fault)) ∨
      ∃ gathered, gather t cwd a = .ok gathered ∧ gathered.targets = []) :
    status = 1 ∧ left = t := by
  cases h with
  | refused | idle => exact ⟨rfl, rfl⟩
  | ran hgather ho hne =>
      rcases hnot with ⟨fault, hfault⟩ | ⟨other, hother, hnone⟩
      · exact absurd hfault (not_unprepared hgather ho)
      · obtain rfl := Except.ok.inj (hgather.symm.trans hother)
        exact absurd hnone hne

theorem turns (h : Answers t cwd a status left) (hcwd : t.Linkless cwd)
    (hprepared : ¬∃ fault, Unprepared t cwd a (.config fault)) :
    ∃ gathered o, gather t cwd a = .ok gathered ∧ optionsOf cwd a gathered = .ok o ∧
      left = (batch t cwd o gathered.targets).1 ∧
      ∀ before target after, gathered.targets = before ++ target :: after →
        (batch t cwd o (before ++ [target])).1 =
            (flattenFile (batch t cwd o before).1 cwd o target).1 ∧
          ((∃ result place,
              (flattenFile (batch t cwd o before).1 cwd o target).2.outcome = .ok result ∧
                placementOf o target = .ok place ∧
                  ∀ ending ∈ [".info.json".toList, o.flatExtension, ".json".toList],
                    left.isFile cwd (place.file ending) = .ok true) ∨
            ∃ failure, failure.isOfTarget ∧ status = 1 ∧
              (flattenFile (batch t cwd o before).1 cwd o target).2.outcome = .error failure ∧
                (batch t cwd o (before ++ [target])).1 = (batch t cwd o before).1) := by
  cases h with
  | refused hrefused => exact absurd ⟨_, hrefused⟩ hprepared
  | @idle gathered o hgather ho hnone =>
      refine ⟨gathered, o, hgather, ho, ?_⟩
      rw [hnone]
      exact ⟨rfl, fun before target after hsplit => by simp at hsplit⟩
  | @ran gathered o report hgather ho _ hreport =>
      refine ⟨gathered, o, hgather, ho, rfl, fun before target after hsplit => ?_⟩
      rw [hsplit] at hreport ⊢
      rw [(settles_of_batch hreport).2]
      refine ⟨rfl, (batch_turn hcwd hreport).imp_right ?_⟩
      rintro ⟨failure, hown, hfailed, houtcome, hkept⟩
      exact ⟨failure, hown, if_neg (mt List.isEmpty_iff.1 hfailed), houtcome, hkept⟩

end Answers

/-- On a site that a system can offer, a command that answers does so with zero or one. It is zero
exactly where the targets and the options are there, there are targets, and each of them is done on
the tree that the ones before it leave. A command that is refused or has nothing to flatten answers
one and leaves the tree as it was. In any other one each target is done, with its three artifacts
there at the end, or it has failed by its own with nothing changed, and then the status is one. -/
theorem status_tells_run (hsound : Site.Sound ⟨t, cwd, none⟩)
    (h : (run t cwd a).2.outcome = .ok status) :
    (status = 0 ∨ status = 1) ∧
    (status = 0 ↔ ∃ gathered o, gather t cwd a = .ok gathered ∧
      optionsOf cwd a gathered = .ok o ∧ gathered.targets ≠ [] ∧
        ∀ before target after, gathered.targets = before ++ target :: after →
          ∃ result, (flattenFile (batch t cwd o before).1 cwd o target).2.outcome = .ok result) ∧
    ((∃ fault, Unprepared t cwd a (.config fault)) ∨
        (∃ gathered, gather t cwd a = .ok gathered ∧ gathered.targets = []) →
      status = 1 ∧ (run t cwd a).1 = t) ∧
    ((¬∃ fault, Unprepared t cwd a (.config fault)) →
      ∃ gathered o, gather t cwd a = .ok gathered ∧ optionsOf cwd a gathered = .ok o ∧
        (run t cwd a).1 = (batch t cwd o gathered.targets).1 ∧
        ∀ before target after, gathered.targets = before ++ target :: after →
          (batch t cwd o (before ++ [target])).1 =
              (flattenFile (batch t cwd o before).1 cwd o target).1 ∧
            ((∃ result place,
                (flattenFile (batch t cwd o before).1 cwd o target).2.outcome = .ok result ∧
                  placementOf o target = .ok place ∧
                    ∀ ending ∈ [".info.json".toList, o.flatExtension, ".json".toList],
                      (run t cwd a).1.isFile cwd (place.file ending) = .ok true) ∨
              ∃ failure, failure.isOfTarget ∧ status = 1 ∧
                (flattenFile (batch t cwd o before).1 cwd o target).2.outcome = .error failure ∧
                  (batch t cwd o (before ++ [target])).1 = (batch t cwd o before).1)) := by
  have hanswers := answers_of_run h
  exact ⟨hanswers.zero_or_one, hanswers.eq_zero_iff, hanswers.eq_of_not_run,
    hanswers.turns hsound.linkless⟩

/-! ### A batch file with a file that is not there before one that is -/

section PartlyGone

def partlyGone : List Value :=
  [entryOf (.ofText "Gone.sol".toList) (.ofText "x".toList),
    entryOf (.ofText "A.sol".toList) (.ofText "x".toList)]

def partlyGoneTargets : List Target :=
  [targetNamed "Gone.sol" (.ofText "x".toList), targetNamed "A.sol" (.ofText "x".toList)]

def partlyGonePlacement : Placement := ⟨⟨.root, ["x".toList]⟩, "x".toList⟩

def batchArguments : Arguments := { Arguments.none with batch := some "b.json".toList }

theorem gather_partlyGone :
    gather (batchTree (batchOf partlyGone)) [] batchArguments =
      .ok ⟨partlyGoneTargets, .null, none⟩ := by
  have hexact : ∀ entry ∈ partlyGone, entry.Exact := by
    simp only [partlyGone, List.forall_mem_cons, List.not_mem_nil, false_imp_iff, implies_true,
      and_true]
    exact ⟨exact_entryOf (.text _) (.text _), exact_entryOf (.text _) (.text _)⟩
  exact load_batchTree hexact (by decide +kernel)
    (.cons (yields_entryOf (by decide) (by decide) rfl)
      (.cons (yields_entryOf (by decide) (by decide) rfl) .nil))

theorem flattenFile_gone_batchTree (document : Value) :
    ∃ failure, failure.isOfTarget ∧
      (flattenFile (batchTree document) [] (.default [])
        (targetNamed "Gone.sol" (.ofText "x".toList))).2.outcome = .error failure := by
  have hpackage : packageRootOf (batchTree document) [] (.default []) = .ok none := by
    unfold batchTree
    generalize Text.toUtf8 (Value.json _ documentIndent) = content
    cbv
  have hmissing : (batchTree document).realPath true [] (.top "Gone.sol") = .error .missing := by
    unfold batchTree
    generalize Text.toUtf8 (Value.json _ documentIndent) = content
    cbv
  have hdiscover : (discover ⟨batchTree document, [], none⟩ Source.byLines
      (Options.default []).resolveWeight (.top "Gone.sol")).outcome =
      .error (.unresolved (Path.top "Gone.sol").text none (some (.top "Gone.sol"))) :=
    (discover_eq_error_iff (batchTree_proper document).toSound).2 (.inl ⟨.missing, hmissing, rfl⟩)
  have hsource : (flattenSource (batchTree document) [] (.default []) Source.byLines
      (targetNamed "Gone.sol" (.ofText "x".toList)).file).outcome = _ :=
    flattenSource_of_discover hpackage hdiscover
  exact ⟨_, rfl, by rw [flattenFile_of_flattenSource hsource]⟩

theorem writeAll_batchTree (document input : Value) (bundle : Bundle) :
    (writeAll (batchTree document) [] partlyGonePlacement
      (drafts bundle partlyGonePlacement input (Options.default []).flatExtension)).2 =
        .ok () := by
  unfold drafts batchTree
  generalize bundle.manifestDocument.json documentIndent = info
  generalize bundle.flatText = flat
  generalize input.json documentIndent = input
  generalize Text.toUtf8 (document.json documentIndent) = content
  cbv

theorem placementOf_partlyGone :
    placementOf (.default []) (targetNamed "A.sol" (.ofText "x".toList)) =
      .ok partlyGonePlacement := by
  cbv

theorem exists_flattenFile_batchTree (document : Value) :
    ∃ written records result, flattenFile (batchTree document) [] (.default [])
      (targetNamed "A.sol" (.ofText "x".toList)) = (written, ⟨records, .ok result⟩) := by
  obtain ⟨bundle, hbundle⟩ := exists_bundle_batchTree document
  let input : Value := bundle.compilerDocument none (Options.default []).evmVersion.name
  let plan : Plan := {
    place := partlyGonePlacement
    files := drafts bundle partlyGonePlacement input (Options.default []).flatExtension
    result := (partlyGonePlacement.file (Options.default []).flatExtension).parent }
  have hplan : (planFile (batchTree document) [] (.default [])
      (targetNamed "A.sol" (.ofText "x".toList))).outcome = .ok plan :=
    planFile_eq_ok_iff.2 ⟨bundle, none, partlyGonePlacement, hbundle,
      compilerSettings_batchTree document, placementOf_partlyGone, rfl⟩
  have hwrite : writeAll (batchTree document) [] plan.place plan.files = (_, .ok ()) :=
    Prod.ext rfl (writeAll_batchTree document input bundle)
  exact ⟨_, _, _, flattenFile_of_written hplan hwrite⟩

theorem optionsOf_partlyGone :
    optionsOf [] batchArguments ⟨partlyGoneTargets, .null, none⟩ = .ok (.default []) := rfl

theorem run_partlyGone :
    (run (batchTree (batchOf partlyGone)) [] batchArguments).2.outcome = .ok 1 := by
  obtain ⟨failure, hown, hgone⟩ := flattenFile_gone_batchTree (batchOf partlyGone)
  have hkept := flattenFile_of_not_planned (planFile_of_isOfTarget hgone hown)
  obtain ⟨written, records, result, hdone⟩ := exists_flattenFile_batchTree (batchOf partlyGone)
  have hbatch : ∃ final, (batch (batchTree (batchOf partlyGone)) [] (.default [])
      partlyGoneTargets).2.outcome = .ok final ∧ final.ok = false := by
    rw [batch, partlyGoneTargets, (batchFrom_of_isOfTarget hkept hown).2,
      (batchFrom_of_ok hdone).2]
    exact ⟨_, rfl, rfl⟩
  obtain ⟨final, hfinal, hok⟩ := hbatch
  have hne : partlyGoneTargets ≠ [] := by simp [partlyGoneTargets]
  rw [(run_of_targets gather_partlyGone optionsOf_partlyGone hne).2, hfinal]
  simp [Except.map, hok]

/-- The file that is there is flattened after the one that is not. -/
theorem status_of_partlyGone :
    let ran := run (batchTree (batchOf partlyGone)) [] batchArguments
    ran.2.outcome = .ok 1 ∧ ∀ ending ∈ [".info.json".toList, ".sol".toList, ".json".toList],
      ran.1.isFile [] (partlyGonePlacement.file ending) = .ok true := by
  intro ran
  refine ⟨run_partlyGone, ?_⟩
  obtain ⟨-, -, -, hran⟩ := status_tells_run (batchTree_proper _).toSound run_partlyGone
  obtain ⟨gathered, o, hgather, ho, -, hturns⟩ :=
    hran fun ⟨fault, hfault⟩ => not_unprepared gather_partlyGone optionsOf_partlyGone hfault
  obtain rfl := Except.ok.inj (gather_partlyGone.symm.trans hgather)
  obtain rfl := Except.ok.inj (optionsOf_partlyGone.symm.trans ho)
  obtain ⟨failure, -, hgone⟩ := flattenFile_gone_batchTree (batchOf partlyGone)
  obtain ⟨written, records, result, hdone⟩ := exists_flattenFile_batchTree (batchOf partlyGone)
  obtain ⟨-, ⟨_, _, hfirst, -⟩ | ⟨_, -, -, -, hkept⟩⟩ := hturns [] _ _ rfl
  · cases hgone.symm.trans hfirst
  · obtain ⟨-, ⟨_, place, -, hplace, hfiles⟩ | ⟨_, -, -, hfails, -⟩⟩ :=
      hturns [targetNamed "Gone.sol" (.ofText "x".toList)] _ _ rfl
    · obtain rfl := Except.ok.inj (placementOf_partlyGone.symm.trans hplace)
      exact hfiles
    · rw [List.nil_append] at hkept
      rw [hkept] at hfails
      cases (congrArg (fun r => r.2.outcome) hdone).symm.trans hfails

end PartlyGone

end CommandLine

end SolidityFlattener
