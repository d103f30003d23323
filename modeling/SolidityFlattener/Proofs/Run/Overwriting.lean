import SolidityFlattener.Proofs.Run.DirectoryRun

/-!
Which artifacts of a run over a directory are left at its end.

A derived place is told by the stem of a file, so two listed files have all their artifact paths in
common or none. An artifact stays what its file wrote unless a path of a file that is listed later
leads to the same place, which links apart needs a file of the same stem.
-/

namespace SolidityFlattener

variable {t t' : Tree} {cwd : Location} {o : Options} {target : Target} {plan : Plan}
  {steps : List (Target × Plan)} {step : Target × Plan} {files before after : List Path}
  {f g p : Path} {sub dir : Text} {a : CommandLine.Arguments} {d : Draft}

/-- What is drafted for a target goes to its artifact paths. -/
theorem map_path_of_planFile (h : (planFile t cwd o target).outcome = .ok plan) :
    plan.files.map Draft.path = target.artifactPaths o := by
  obtain ⟨bundle, settings, place, -, -, hplace, rfl⟩ := planFile_eq_ok_iff.1 h
  rw [Target.artifactPaths, hplace]
  rfl

theorem Written.map_path (h : Written cwd o t steps t') (hstep : step ∈ steps) :
    step.2.files.map Draft.path = step.1.artifactPaths o := by
  obtain ⟨before, after, rfl⟩ := List.append_of_mem hstep
  obtain ⟨_, _, -, hplan, -⟩ := h.split
  exact map_path_of_planFile hplan

/-- What stands in the end where a draft's path leads is what is drafted for the same target, unless
a target that comes later leads there. -/
theorem Written.exists_kept {before after : List (Target × Plan)}
    (h : Written cwd o t (before ++ step :: after) t') (hcwd : t.Linkless cwd)
    (hd : d ∈ step.2.files) :
    ∃ place content, t'.locate .target cwd d.path = .ok place ∧
      t'.lookup place = some (.file content) ∧
        ((∀ later ∈ after, ∀ p ∈ later.1.artifactPaths o, t'.locate .target cwd p ≠ .ok place) →
          ∃ last ∈ step.2.files, t'.locate .target cwd last.path = .ok place ∧
            content = last.text.toUtf8) := by
  obtain ⟨front, back, hfiles⟩ := List.append_of_mem hd
  obtain ⟨place, content, -, hlocate, hcontent, -⟩ := h.exists_file hcwd hfiles
  refine ⟨place, content, hlocate, hcontent, fun hlater => ?_⟩
  -- of this target's own drafts the last one that leads there counts
  obtain ⟨front, last, back, hfiles, hlast, hback⟩ :=
    exists_last (q := fun other : Draft => t'.locate .target cwd other.path = .ok place)
      ⟨d, hd, hlocate⟩
  obtain ⟨place', content', -, hlocate', hcontent', hkept⟩ := h.exists_file hcwd hfiles
  obtain rfl : place' = place := Except.ok.inj (hlocate'.symm.trans hlast)
  obtain rfl : content' = content := by simpa [hcontent'] using hcontent
  refine ⟨last, by simp [hfiles], hlast, hkept hback fun later hmem other hother => ?_⟩
  refine hlater later hmem _ ?_
  rw [← h.map_path (List.mem_append_right _ (List.mem_cons_of_mem _ hmem))]
  exact List.mem_map_of_mem hother

/-- Where no link is met, the drafts for a file are left as they are written if no file that comes
later has its stem. -/
theorem Written.find_eq {before after : List (Target × Plan)} {later : List Path}
    (h : Written cwd o t (before ++ step :: after) t') (hcwd : t.Linkless cwd)
    (hbase : o.baseDir = some (.ofLocation cwd)) (hextension : o.flatExtension = ".sol".toList)
    (hstep : step.1 = derivedFor sub f) (hafter : after.map Prod.fst = later.map (derivedFor sub))
    (hstems : ∀ g ∈ f :: later, PlainStem g.stem)
    (hlinks : ∀ g ∈ f :: later, ∀ p ∈ (derivedFor sub g).artifactPaths o,
      t'.NoLinkAt (t'.locateLookups .target cwd p))
    (hlast : f.stem ∉ later.map Path.stem) (hd : d ∈ step.2.files) :
    t'.find cwd d.path = .ok (.file d.text.toUtf8) := by
  have hpaths : step.2.files.map Draft.path = (derivedFor sub f).artifactPaths o :=
    hstep ▸ h.map_path (List.mem_append_right _ List.mem_cons_self)
  have hf := hstems f List.mem_cons_self
  have hown : ∀ {other}, other ∈ step.2.files → other.path ∈ (derivedFor sub f).artifactPaths o :=
    fun hother => hpaths ▸ List.mem_map_of_mem hother
  have hstraight : ∀ {g p place}, g ∈ f :: later → p ∈ (derivedFor sub g).artifactPaths o →
      t'.locate .target cwd p = .ok place → place = Tree.straight [] p.parts := fun hg hp hlocate =>
    eq_straight_of_mem_artifactPaths hbase hextension (hstems _ hg) hp (hlinks _ hg _ hp) hlocate
  obtain ⟨front, back, hfiles⟩ := List.append_of_mem hd
  obtain ⟨place, content, -, hlocate, hcontent, hkept⟩ := h.exists_file hcwd hfiles
  have hplace := hstraight List.mem_cons_self (hown hd) hlocate
  have hback : ∀ other ∈ back, t'.locate .target cwd other.path ≠ .ok place := by
    intro other hother hleads
    have hnodup : (((derivedFor sub f).artifactPaths o).map fun p =>
      Tree.straight [] p.parts).Nodup := nodup_artifactPaths hbase hextension hf
    rw [← hpaths, hfiles, List.map_map, List.map_append, List.map_cons,
      List.nodup_middle, List.nodup_cons] at hnodup
    have hsame := hplace.symm.trans
      (hstraight List.mem_cons_self (hown (by simp [hfiles, hother])) hleads)
    exact hnodup.1 (List.mem_append_right _ (List.mem_map.2 ⟨other, hother, hsame.symm⟩))
  have hlater : ∀ step ∈ after, ∀ other ∈ step.2.files,
      t'.locate .target cwd other.path ≠ .ok place := by
    intro next hnext other hother hleads
    obtain ⟨g, hg, htarget⟩ :=
      List.mem_map.1 (hafter ▸ List.mem_map_of_mem hnext : next.1 ∈ later.map (derivedFor sub))
    have hother : other.path ∈ (derivedFor sub g).artifactPaths o := by
      rw [htarget, ← h.map_path (List.mem_append_right _ (List.mem_cons_of_mem _ hnext))]
      exact List.mem_map_of_mem hother
    have hgmem := List.mem_cons_of_mem f hg
    have hsame := hplace.symm.trans (hstraight hgmem hother hleads)
    have hstem := stem_eq_of_straight_eq hbase hextension hf (hstems g hgmem) (hown hd) hother hsame
    exact hlast (hstem ▸ List.mem_map_of_mem hg)
  simp [Tree.find, hlocate, hcontent, hkept hback hlater, bind, Except.bind]

namespace CommandLine

/-- A run over a directory that answers zero, on a tree that a system can offer. Two listed files
whose stems hold no backslash have the same artifact paths if they have the same stem, and none in
common otherwise. Each artifact path of a listed file leads to a file in the end, and this holds
what was planned for that file when its turn came, unless a path of a file listed later leads to the
same place. Where no link is met and no stem holds a backslash, only a later file of the same stem
can have such a path. -/
theorem artifacts_kept_unless_led_to_later (hsound : Site.Sound ⟨t, cwd, none⟩)
    (hslashless : t.Slashless) (hargs : OverDirectory a dir sub)
    (hfiles : rootFiles t cwd .default (.ofText dir) = .ok files)
    (hrun : (run t cwd a).2.outcome = .ok 0) :
    ∃ o, optionsOf cwd a ⟨files.map (derivedFor sub), .null, none⟩ = .ok o ∧
      (∀ f ∈ files, ∀ g ∈ files, '\\' ∉ f.stem → '\\' ∉ g.stem →
        if f.stem = g.stem then
          (derivedFor sub f).artifactPaths o = (derivedFor sub g).artifactPaths o
        else
          ((derivedFor sub f).artifactPaths o).Disjoint ((derivedFor sub g).artifactPaths o)) ∧
      ∀ before f after, files = before ++ f :: after →
        ∃ plan, (planFile (batch t cwd o (before.map (derivedFor sub))).1 cwd o
            (derivedFor sub f)).outcome = .ok plan ∧
          plan.files.map Draft.path = (derivedFor sub f).artifactPaths o ∧
          (∀ d ∈ plan.files, ∃ place content,
            (run t cwd a).1.locate .target cwd d.path = .ok place ∧
            (run t cwd a).1.lookup place = some (.file content) ∧
            ((∀ g ∈ after, ∀ p ∈ (derivedFor sub g).artifactPaths o,
                (run t cwd a).1.locate .target cwd p ≠ .ok place) →
              ∃ last ∈ plan.files, (run t cwd a).1.locate .target cwd last.path = .ok place ∧
                content = last.text.toUtf8)) ∧
          ((∀ g ∈ files, '\\' ∉ g.stem) →
            (∀ g ∈ files, ∀ p ∈ (derivedFor sub g).artifactPaths o,
              (run t cwd a).1.NoLinkAt ((run t cwd a).1.locateLookups .target cwd p)) →
            f.stem ∉ after.map Path.stem →
              ∀ d ∈ plan.files,
                (run t cwd a).1.find cwd d.path = .ok (.file d.text.toUtf8)) := by
  obtain ⟨r⟩ := nonempty_directoryRun_of_run hargs hfiles hrun
  obtain ⟨hbase, hextension⟩ := r.baseDir_eq
  have hplain : ∀ f ∈ files, '\\' ∉ f.stem → PlainStem f.stem := fun f hf =>
    plainStem_of_mem_rootFiles hsound.named hslashless hfiles hf
  have hwritten := r.written
  refine ⟨r.options, r.options_eq, fun f hf g hg hfback hgback => ?_,
    fun before f after hsplit => ?_⟩
  · have hf := hplain f hf hfback
    have hg := hplain g hg hgback
    split_ifs with hstem
    · rw [artifactPaths_eq_of_plainStem hbase hextension hf,
        artifactPaths_eq_of_plainStem hbase hextension hg, hstem]
    · exact fun p hp hq => hstem (stem_eq_of_straight_eq hbase hextension hf hg hp hq rfl)
  · obtain ⟨earlier, later, plan, hsteps, hearlier, hlater⟩ := r.exists_step hsplit
    rw [hsteps] at hwritten
    obtain ⟨u, _, hbefore, hplan, -⟩ := hwritten.split
    rw [← hearlier, hbefore.batch_eq]
    refine ⟨plan, hplan, map_path_of_planFile hplan, fun d hd => ?_, ?_⟩
    · obtain ⟨place, content, hlocate, hcontent, hkept⟩ := hwritten.exists_kept hsound.linkless hd
      refine ⟨place, content, hlocate, hcontent, fun hnone => hkept fun next hnext => ?_⟩
      obtain ⟨g, hg, htarget⟩ :=
        List.mem_map.1 (hlater ▸ List.mem_map_of_mem hnext : next.1 ∈ after.map (derivedFor sub))
      exact htarget ▸ hnone g hg
    · intro hbacks hlinks hlast d hd
      have hmem : ∀ g ∈ f :: after, g ∈ files := by
        intro g hg
        rw [hsplit]
        exact List.mem_append_right _ hg
      exact hwritten.find_eq hsound.linkless hbase hextension rfl hlater
        (fun g hg => hplain g (hmem g hg) (hbacks g (hmem g hg)))
        (fun g hg => hlinks g (hmem g hg)) hlast hd

theorem twins_second_artifacts_kept :
    (run twinTree [] twinArguments).2.outcome = .ok 0 ∧
      (derivedFor [] (twinFile "a")).artifactPaths (.default []) =
        (derivedFor [] (twinFile "b")).artifactPaths (.default []) ∧
      ∃ plan, (planFile (batch twinTree [] (.default []) [derivedFor [] (twinFile "a")]).1 []
          (.default []) (derivedFor [] (twinFile "b"))).outcome = .ok plan ∧
        ∀ d ∈ plan.files,
          (run twinTree [] twinArguments).1.find [] d.path = .ok (.file d.text.toUtf8) := by
  obtain ⟨info, flat, input, ⟨r⟩⟩ := exists_directoryRun_twins
  obtain ⟨htree, hrun⟩ := r.run_eq twinArguments_overDirectory
  have hlinks : (twinWritten info flat input).LinkFree := Tree.linkFree_of_links_eq_nil rfl
  obtain ⟨o, ho, hpaths, hkept⟩ := artifacts_kept_unless_led_to_later twins_sound twins_slashless
    twinArguments_overDirectory rootFiles_twins hrun
  obtain rfl : Options.default [] = o := Except.ok.inj ho
  have hback : ∀ f ∈ [twinFile "a", twinFile "b"], '\\' ∉ f.stem := by decide
  have hstem : (twinFile "a").stem = (twinFile "b").stem := by decide
  have hsame := hpaths (twinFile "a") (by simp) (twinFile "b") (by simp) (hback _ (by simp))
    (hback _ (by simp))
  rw [if_pos hstem] at hsame
  obtain ⟨plan, hplan, -, -, hlast⟩ := hkept [twinFile "a"] (twinFile "b") [] rfl
  refine ⟨hrun, hsame, plan, hplan, hlast hback (fun g hg p hp => ?_) (by simp)⟩
  rw [htree]
  exact hlinks.noLinkAt _

/-- Different files that are listed can have the same artifact paths. -/
theorem twins_share_artifacts :
    (run twinTree [] twinArguments).2.outcome = .ok 0 ∧
      rootFiles twinTree [] .default (.ofText ".".toList) = .ok [twinFile "a", twinFile "b"] ∧
      twinFile "a" ≠ twinFile "b" ∧
      optionsOf [] twinArguments ⟨[twinFile "a", twinFile "b"].map (derivedFor []), .null, none⟩ =
        .ok (.default []) ∧
      (derivedFor [] (twinFile "a")).artifactPaths (.default []) =
        (derivedFor [] (twinFile "b")).artifactPaths (.default []) := by
  obtain ⟨info, flat, input, ⟨r⟩⟩ := exists_directoryRun_twins
  exact ⟨(r.run_eq twinArguments_overDirectory).2, rootFiles_twins, by decide, rfl, by decide⟩

end CommandLine

end SolidityFlattener
