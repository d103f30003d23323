import SolidityFlattener.Proofs.Run.Batches
import SolidityFlattener.Proofs.Run.Footprint

/-!
Targets that do not get in each other's way.

A batch takes its targets one after another on one tree. `Settled` tells what the tree has become
when some of them have been taken: where a target changes something alone, what it makes of it, and
elsewhere what was there at first. While no target changes what is looked up for another one, this
is kept by each further target, which ends as it would alone. What `Settled` says of a tree does not
depend on the order of the targets, and targets that fail do not matter to it.
-/

namespace SolidityFlattener

variable {t b b' : Tree} {cwd : Location} {o : Options} {target other : Target}
  {targets done rest : List Target} {report : Report} {failure : Failure} {plan : Plan}

namespace Target

/-- Two targets neither of which changes what is looked up for the other. -/
def Apart (t : Tree) (cwd : Location) (o : Options) (target other : Target) : Prop :=
  (∀ place, target.Changes t cwd o place → ¬other.LooksUp t cwd o place) ∧
    ∀ place, other.Changes t cwd o place → ¬target.LooksUp t cwd o place

instance (t : Tree) (cwd : Location) (o : Options) : Std.Symm (Apart t cwd o) :=
  ⟨fun _ _ h => And.symm h⟩

/-- What is noted of a target that is done. -/
def done? (t : Tree) (cwd : Location) (o : Options) (target : Target) : Option (Path × Path) :=
  (flattenFile t cwd o target).2.outcome.toOption.map (target.file, ·)

/-- What is noted of a target that fails. -/
def failed? (t : Tree) (cwd : Location) (o : Options) (target : Target) :
    Option (Path × Failure) :=
  (failure? (flattenFile t cwd o target).2.outcome).map (target.file, ·)

theorem failed?_eq_none_iff :
    target.failed? t cwd o = none ↔
      ∃ result, (flattenFile t cwd o target).2.outcome = .ok result := by
  unfold failed? failure?
  cases (flattenFile t cwd o target).2.outcome <;> simp

/-- A target is noted once. -/
theorem length_noted (t : Tree) (cwd : Location) (o : Options) (targets : List Target) :
    (targets.filterMap (done? t cwd o)).length + (targets.filterMap (failed? t cwd o)).length =
      targets.length := by
  induction targets with
  | nil => rfl
  | cons target rest ih =>
      rw [List.filterMap_cons, List.filterMap_cons, List.length_cons, ← ih]
      unfold done? failed? failure?
      cases (flattenFile t cwd o target).2.outcome with
      | error failure => simp [Except.toOption]; omega
      | ok result => simp [Except.toOption]; omega

/-- A failure of the target's own changes nothing. -/
theorem Settles.not_changes (hsettles : target.Settles t cwd o)
    (h : (flattenFile t cwd o target).2.outcome = .error failure) (place : Location) :
    ¬target.Changes t cwd o place := by
  unfold Changes
  rw [flattenFile_of_not_planned (planFile_of_isOfTarget h (hsettles failure h))]
  exact not_not_intro rfl

/-- When a target is done, the path of each of its artifacts leads to a file. -/
theorem Settles.exists_locate (hsettles : target.Settles t cwd o) (hcwd : t.Linkless cwd)
    (hplan : (planFile t cwd o target).outcome = .ok plan) {d : Draft} (hd : d ∈ plan.files) :
    ∃ place, (flattenFile t cwd o target).1.locate .newFile cwd d.path = .ok place := by
  obtain ⟨made, hmade, hdrafts⟩ := writeAll_eq_ok_iff.1 (hsettles.written hplan)
  have hcwd' := (Tree.extends_makeDirectories hcwd hmade).linkless hcwd
  exact exists_locate_of_writeDrafts hcwd' hdrafts hd

theorem Settles.lookups_of_changes (hsettles : target.Settles t cwd o)
    (hsound : Site.Sound ⟨t, cwd, none⟩) {place : Location}
    (hchanges : target.Changes t cwd o place) : target.LooksUp t cwd o place := by
  by_contra hnot
  obtain ⟨-, hbeside⟩ := hsettles.beside hsound (.refl t) fun _ _ => rfl
  exact hchanges (hbeside.rest place hnot).1

end Target

/-! ### One target after others -/

/-- A tree on which some targets have been flattened. -/
structure Settled (t : Tree) (cwd : Location) (o : Options) (done : List Target) (b : Tree) :
    Prop where
  extension : t.Extends b
  changed : ∀ target ∈ done, ∀ place, target.Changes t cwd o place →
    b.lookup place = (flattenFile t cwd o target).1.lookup place
  rest : ∀ place, (∀ target ∈ done, ¬target.Changes t cwd o place) →
    b.lookup place = t.lookup place

namespace Settled

theorem nil (t : Tree) (cwd : Location) (o : Options) : Settled t cwd o [] t :=
  ⟨.refl t, by simp, fun _ _ => rfl⟩

/-- A target that is apart from those before it finds all that it looks up as it was at first. -/
theorem agreeOn (h : Settled t cwd o done b)
    (hapart : ∀ other ∈ done, other.Apart t cwd o target) :
    Tree.AgreeOn {place | target.LooksUp t cwd o place} t b :=
  fun place hplace => h.rest place fun other hother hchanges =>
    (hapart other hother).1 place hchanges hplace

/-- One more target, apart from those before it, ends as it would alone. -/
theorem step (h : Settled t cwd o done b) (hsound : Site.Sound ⟨t, cwd, none⟩)
    (hsettles : target.Settles t cwd o) (hapart : ∀ other ∈ done, other.Apart t cwd o target) :
    (flattenFile b cwd o target).2 = (flattenFile t cwd o target).2 ∧
      Settled t cwd o (done ++ [target]) (flattenFile b cwd o target).1 := by
  obtain ⟨hsame, hagree, helse⟩ := hsettles.beside hsound h.extension (h.agreeOn hapart)
  refine ⟨hsame, ?_, ?_, ?_⟩
  · have hcwd := h.extension.linkless hsound.linkless
    exact h.extension.trans ((hsettles.congr hsame).extends hcwd)
  · intro other hother place hchanges
    rcases List.mem_append.1 hother with hother | hother
    · have hnot := (hapart other hother).1 place hchanges
      exact (helse place hnot).2.trans (h.changed other hother place hchanges)
    · obtain rfl := List.mem_singleton.1 hother
      exact hagree place (hsettles.lookups_of_changes hsound hchanges)
  · intro place hnone
    have hlast : (flattenFile t cwd o target).1.lookup place = t.lookup place :=
      not_not.1 (hnone target (by simp))
    by_cases hlooked : target.LooksUp t cwd o place
    · exact (hagree place hlooked).trans hlast
    · exact (helse place hlooked).2.trans
        (h.rest place fun other hother => hnone other (List.mem_append_left _ hother))

/-- Where a target looks something up or changes something there is what it makes alone. -/
theorem lookup_of_looksUp (h : Settled t cwd o done b)
    (hapart : done.Pairwise (Target.Apart t cwd o)) (htarget : target ∈ done) {place : Location}
    (hplace : target.LooksUp t cwd o place ∨ target.Changes t cwd o place) :
    b.lookup place = (flattenFile t cwd o target).1.lookup place := by
  by_cases hchanges : target.Changes t cwd o place
  · exact h.changed target htarget place hchanges
  · have hlooked := hplace.resolve_right hchanges
    have hkept : (flattenFile t cwd o target).1.lookup place = t.lookup place := not_not.1 hchanges
    rw [hkept]
    refine h.rest place fun other hother hchanges' => ?_
    have hne : other ≠ target := by
      rintro rfl
      exact hchanges hchanges'
    have hpair := hapart.forall hother htarget hne
    exact hpair.1 place hchanges' hlooked

/-- The artifacts of a target are where it puts them alone, and as it makes them alone. -/
theorem exists_artifact (h : Settled t cwd o done b) (hsound : Site.Sound ⟨t, cwd, none⟩)
    (hsettles : target.Settles t cwd o) (hapart : done.Pairwise (Target.Apart t cwd o))
    (htarget : target ∈ done) (hplan : (planFile t cwd o target).outcome = .ok plan) {d : Draft}
    (hd : d ∈ plan.files) :
    ∃ place, (flattenFile t cwd o target).1.locate .newFile cwd d.path = .ok place ∧
      b.locate .newFile cwd d.path = .ok place ∧
      b.lookup place = (flattenFile t cwd o target).1.lookup place := by
  obtain ⟨place, hlocate⟩ := hsettles.exists_locate hsound.linkless hplan hd
  have hway : ∀ other ∈ (flattenFile t cwd o target).1.locateLookups .newFile cwd d.path,
      b.lookup other = (flattenFile t cwd o target).1.lookup other := fun other hother =>
    h.lookup_of_looksUp hapart htarget (.inl (.artifact hplan hd hother))
  refine ⟨place, hlocate, ?_, hway place (Tree.mem_locateLookups hlocate)⟩
  rw [Tree.locate_congr fun other hother => Tree.shapeAt_congr (hway other hother), hlocate]

/-- All that matters of the targets is which ones they are. -/
theorem lookup_eq (h : Settled t cwd o done b) (h' : Settled t cwd o targets b')
    (hmem : ∀ target place, target.Changes t cwd o place → (target ∈ done ↔ target ∈ targets))
    (place : Location) : b'.lookup place = b.lookup place := by
  by_cases hchanged : ∃ target ∈ done, target.Changes t cwd o place
  · obtain ⟨target, htarget, hchanges⟩ := hchanged
    rw [h.changed target htarget place hchanges,
      h'.changed target ((hmem target place hchanges).1 htarget) place hchanges]
  · have hnone : ∀ target ∈ done, ¬target.Changes t cwd o place := by simpa using hchanged
    rw [h.rest place hnone, h'.rest place fun target htarget hchanges =>
      hnone target ((hmem target place hchanges).2 htarget) hchanges]

end Settled

/-! ### A batch -/

theorem toList_append_filterMap {α β : Type} (f : α → Option β) (a : α) (as : List α) :
    (f a).toList ++ as.filterMap f = (a :: as).filterMap f := by
  cases h : f a <;> simp [h]

/-- A target that is done or fails for a reason of its own is noted, and the rest is done. -/
theorem batchFrom_cons (hsettles : target.Settles b cwd o) (report : Report)
    (rest : List Target) :
    (batchFrom cwd o b report (target :: rest)).1 =
        (batchFrom cwd o (flattenFile b cwd o target).1
          ⟨report.flattened ++ (target.done? b cwd o).toList,
            report.failed ++ (target.failed? b cwd o).toList⟩ rest).1 ∧
      (batchFrom cwd o b report (target :: rest)).2.outcome =
        (batchFrom cwd o (flattenFile b cwd o target).1
          ⟨report.flattened ++ (target.done? b cwd o).toList,
            report.failed ++ (target.failed? b cwd o).toList⟩ rest).2.outcome := by
  unfold Target.Settles at hsettles
  unfold Target.done? Target.failed?
  rcases hfile : flattenFile b cwd o target with ⟨after, records, failure | result⟩
  · rw [hfile] at hsettles
    simp only [failure?, Except.toOption, Option.map_none, Option.map_some, Option.toList_none,
      Option.toList_some, List.append_nil]
    exact batchFrom_of_isOfTarget hfile (hsettles failure rfl)
  · simp only [failure?, Except.toOption, Option.map_none, Option.map_some, Option.toList_none,
      Option.toList_some, List.append_nil]
    exact batchFrom_of_ok hfile

/-- A batch goes on from targets that have been flattened to all of them. -/
theorem Settled.run (h : Settled t cwd o done b) (hsound : Site.Sound ⟨t, cwd, none⟩)
    (hsettles : ∀ target ∈ targets, target.Settles t cwd o)
    (hapart : (done ++ targets).Pairwise (Target.Apart t cwd o)) (report : Report) :
    Settled t cwd o (done ++ targets) (batchFrom cwd o b report targets).1 ∧
      (batchFrom cwd o b report targets).2.outcome =
        .ok ⟨report.flattened ++ targets.filterMap (Target.done? t cwd o),
          report.failed ++ targets.filterMap (Target.failed? t cwd o)⟩ := by
  induction targets generalizing done b report with
  | nil => simpa [batchFrom] using h
  | cons target rest ih =>
      obtain ⟨hfirst, hrest⟩ := List.forall_mem_cons.1 hsettles
      have hbefore : ∀ other ∈ done, other.Apart t cwd o target := fun other hother =>
        (List.pairwise_append.1 hapart).2.2 other hother target List.mem_cons_self
      obtain ⟨hsame, hsettled⟩ := h.step hsound hfirst hbefore
      obtain ⟨htree, houtcome⟩ := batchFrom_cons (hfirst.congr hsame) report rest
      obtain ⟨hall, hreport⟩ := ih hsettled hrest (by simpa using hapart)
        ⟨report.flattened ++ (target.done? b cwd o).toList,
          report.failed ++ (target.failed? b cwd o).toList⟩
      rw [htree, houtcome]
      refine ⟨by simpa using hall, ?_⟩
      rw [hreport]
      have hdone : target.done? b cwd o = target.done? t cwd o := by simp [Target.done?, hsame]
      have hfailed : target.failed? b cwd o = target.failed? t cwd o := by
        simp [Target.failed?, hsame]
      simp only [hdone, hfailed, List.append_assoc, toList_append_filterMap]

theorem settled_batch (hsound : Site.Sound ⟨t, cwd, none⟩)
    (hsettles : ∀ target ∈ targets, target.Settles t cwd o)
    (hapart : targets.Pairwise (Target.Apart t cwd o)) :
    Settled t cwd o targets (batch t cwd o targets).1 ∧
      (batch t cwd o targets).2.outcome = .ok
        ⟨targets.filterMap (Target.done? t cwd o), targets.filterMap (Target.failed? t cwd o)⟩ := by
  simpa [batch, Report.empty] using
    (Settled.nil t cwd o).run hsound hsettles (by simpa using hapart) .empty

/-! ### A target of the trio beside one that is not there -/

section Trio

/-- Of a file that is not there no more is looked up than the package root and the file. -/
theorem mem_of_looksUp_gone {place : Location}
    (h : goneTarget.LooksUp trioSite.tree [] (.default []) place) :
    place ∈ [[], ["node_modules".toList], ["Gone.sol".toList]] := by
  have hpackage : packageRootLookups trioSite.tree [] (.default []) =
      [[], ["node_modules".toList]] := by cbv
  have hroot : trioSite.tree.realPathLookups true [] goneTarget.file =
      [["Gone.sol".toList], []] := by cbv
  -- a root that is missing is all that the run comes to
  cases h with
  | packageRoot hplace =>
      rw [hpackage] at hplace
      rcases List.mem_pair.1 hplace with rfl | rfl <;> decide
  | root _ hplace =>
      rw [hroot] at hplace
      rcases List.mem_pair.1 hplace with rfl | rfl <;> decide
  | source _ hpath => cases realPath_gone.symm.trans hpath
  | labels hpackageRoot hdiscover =>
      obtain rfl := Except.ok.inj (packageRootOf_trio.symm.trans hpackageRoot)
      cases discover_gone.symm.trans hdiscover
  | settings hbundle => cases flattenSource_gone.symm.trans hbundle
  | artifact hplan => cases (planFile_of_isOfTarget flattenFile_gone rfl).symm.trans hplan

theorem trioTarget_settles : trioTarget.Settles trioSite.tree [] (.default []) := by
  obtain ⟨info, flat, input, -, houtcome⟩ := exists_flattenFile_trio
  intro failure h
  cases houtcome.symm.trans h

theorem goneTarget_settles : goneTarget.Settles trioSite.tree [] (.default []) := by
  intro failure h
  obtain rfl := Except.error.inj (flattenFile_gone.symm.trans h)
  rfl

theorem trio_apart_gone :
    trioTarget.Apart trioSite.tree [] (.default []) goneTarget := by
  constructor
  · intro place hchanges hlooked
    obtain ⟨info, flat, input, htree, -⟩ := exists_flattenFile_trio
    unfold Target.Changes at hchanges
    rw [htree] at hchanges
    have hplace := mem_of_looksUp_gone hlooked
    simp only [List.mem_cons, List.not_mem_nil, or_false] at hplace
    rcases hplace with rfl | rfl | rfl
    · exact hchanges rfl
    · exact hchanges rfl
    · exact hchanges rfl
  · intro place hchanges
    exact absurd hchanges (goneTarget_settles.not_changes flattenFile_gone place)

end Trio

/-- Targets apart from each other, on a site that a system can offer, each of which is done or fails
for a reason of its own. A batch notes each of them as it ends alone, those that are done and those
that fail, both in the order of the list. The tree that results has what a target makes alone
wherever the target looks something up or changes something, so in the places of its artifacts, and
elsewhere what was there at first. Another order of the targets gives the same tree, and a target
that fails could as well be left out. -/
theorem batch_of_targets_apart (t : Tree) (cwd : Location) (o : Options) (targets : List Target)
    (hsound : Site.Sound ⟨t, cwd, none⟩) (hsettles : ∀ target ∈ targets, target.Settles t cwd o)
    (hapart : targets.Pairwise (Target.Apart t cwd o)) :
    ((batch t cwd o targets).2.outcome =
        .ok ⟨targets.filterMap (Target.done? t cwd o), targets.filterMap (Target.failed? t cwd o)⟩ ∧
      (targets.filterMap (Target.done? t cwd o)).length +
        (targets.filterMap (Target.failed? t cwd o)).length = targets.length ∧
      ∀ report, (batch t cwd o targets).2.outcome = .ok report →
        (report.ok ↔
          ∀ target ∈ targets, ∃ result, (flattenFile t cwd o target).2.outcome = .ok result)) ∧
    ((∀ target ∈ targets, ∀ place,
        target.LooksUp t cwd o place ∨ target.Changes t cwd o place →
          (batch t cwd o targets).1.lookup place = (flattenFile t cwd o target).1.lookup place) ∧
      (∀ place, (∀ target ∈ targets, ¬target.Changes t cwd o place) →
        (batch t cwd o targets).1.lookup place = t.lookup place) ∧
      ∀ target ∈ targets, ∀ plan, (planFile t cwd o target).outcome = .ok plan →
        ∀ d ∈ plan.files, ∃ place,
          (flattenFile t cwd o target).1.locate .newFile cwd d.path = .ok place ∧
          (batch t cwd o targets).1.locate .newFile cwd d.path = .ok place ∧
          (batch t cwd o targets).1.lookup place =
            (flattenFile t cwd o target).1.lookup place) ∧
    (∀ others : List Target, others.Perm targets → ∀ place,
      (batch t cwd o others).1.lookup place = (batch t cwd o targets).1.lookup place) ∧
    ∀ before target after failure, targets = before ++ target :: after →
      (flattenFile t cwd o target).2.outcome = .error failure →
        (∀ place, (batch t cwd o (before ++ after)).1.lookup place =
          (batch t cwd o targets).1.lookup place) ∧
        (batch t cwd o (before ++ after)).2.outcome =
          .ok ⟨targets.filterMap (Target.done? t cwd o),
            (before ++ after).filterMap (Target.failed? t cwd o)⟩ := by
  obtain ⟨hsettled, hreport⟩ := settled_batch hsound hsettles hapart
  refine ⟨⟨hreport, Target.length_noted t cwd o targets, ?_⟩, ⟨?_, hsettled.rest, ?_⟩, ?_, ?_⟩
  · intro report houtcome
    obtain rfl := Except.ok.inj (hreport.symm.trans houtcome)
    simp [Report.ok, Target.failed?_eq_none_iff]
  · exact fun target htarget place hplace => hsettled.lookup_of_looksUp hapart htarget hplace
  · exact fun target htarget plan hplan d hd =>
      hsettled.exists_artifact hsound (hsettles target htarget) hapart htarget hplan hd
  · intro others hperm place
    have hothers := settled_batch hsound (fun target htarget =>
      hsettles target (hperm.subset htarget)) ((hperm.pairwise_iff fun h => And.symm h).2 hapart)
    exact hsettled.lookup_eq hothers.1 (fun target _ _ => hperm.symm.mem_iff) place
  · rintro before target after failure rfl hfailure
    have hsublist : (before ++ after).Sublist (before ++ target :: after) :=
      (List.sublist_cons_self target after).append_left before
    have hrest := settled_batch hsound (fun other hother =>
      hsettles other (hsublist.subset hother)) (hapart.sublist hsublist)
    have hnothing := (hsettles target (by simp)).not_changes hfailure
    have hdone : target.done? t cwd o = none := by simp [Target.done?, hfailure, Except.toOption]
    refine ⟨fun place => hsettled.lookup_eq hrest.1 ?_ place, ?_⟩
    · intro other place hchanges
      have hne : other ≠ target := by
        rintro rfl
        exact hnothing place hchanges
      simp [hne]
    · rw [hrest.2]
      simp [hdone]

theorem batch_of_trio_and_gone :
    (batch trioSite.tree [] (.default []) [trioTarget, goneTarget]).2.outcome =
        .ok ⟨[(trioTarget.file, trioPlacement.directory)], [(goneTarget.file, goneFailure)]⟩ ∧
      (batch trioSite.tree [] (.default []) [trioTarget, goneTarget]).1.lookup ["out".toList] =
        some .directory ∧
      (∀ place, (batch trioSite.tree [] (.default []) [goneTarget, trioTarget]).1.lookup place =
        (batch trioSite.tree [] (.default []) [trioTarget, goneTarget]).1.lookup place) ∧
      ∀ place, (batch trioSite.tree [] (.default []) [trioTarget]).1.lookup place =
        (batch trioSite.tree [] (.default []) [trioTarget, goneTarget]).1.lookup place := by
  obtain ⟨⟨hreport, -⟩, ⟨hlookup, -⟩, hperm, hfailing⟩ :=
    batch_of_targets_apart trioSite.tree [] (.default []) [trioTarget, goneTarget] trioSite_sound
      (by simp [trioTarget_settles, goneTarget_settles]) (by simp [trio_apart_gone])
  obtain ⟨info, flat, input, htree, houtcome⟩ := exists_flattenFile_trio
  refine ⟨?_, ?_, hperm _ (.swap _ _ _), ?_⟩
  · rw [hreport]
    simp [Target.done?, Target.failed?, failure?, houtcome, flattenFile_gone, Except.toOption]
  · have hout : (flattenFile trioSite.tree [] (.default []) trioTarget).1.lookup ["out".toList] =
        some .directory := by
      rw [htree]
      rfl
    have hchanges : trioTarget.Changes trioSite.tree [] (.default []) ["out".toList] := by
      unfold Target.Changes
      rw [hout]
      exact Option.some_ne_none _
    rw [hlookup trioTarget (by simp) _ (.inr hchanges), hout]
  · exact (hfailing [trioTarget] goneTarget [] goneFailure rfl flattenFile_gone).1

end SolidityFlattener
