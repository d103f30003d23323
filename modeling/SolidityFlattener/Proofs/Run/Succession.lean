import SolidityFlattener.Proofs.Run.Footprint
import SolidityFlattener.Proofs.Tree.Additions

/-!
Targets that are all done, one after another.

`Written` tells the plans of a batch in which no target fails, and the tree they lead to. Each path
that something is drafted for leads to a file then, and what the file holds is the last draft whose
path leads there: a later target can overwrite what an earlier one wrote. So writing the same plans
a second time, where that can be done, changes nothing.
-/

namespace SolidityFlattener

variable {t t' u v : Tree} {cwd : Location} {o : Options} {target : Target} {targets : List Target}
  {report final : Report} {steps before after : List (Target × Plan)} {step : Target × Plan}
  {files front back : List Draft} {d : Draft} {place : Location} {content : ByteArray}
  {p : Path} {text : Text} {directories written : Path → Prop}

/-- Targets planned and written one after another. -/
inductive Written (cwd : Location) (o : Options) : Tree → List (Target × Plan) → Tree → Prop
  | nil {t : Tree} : Written cwd o t [] t
  | cons {t u t' : Tree} {target : Target} {plan : Plan} {steps : List (Target × Plan)} :
      (planFile t cwd o target).outcome = .ok plan →
        writeAll t cwd plan.place plan.files = (u, .ok ()) → Written cwd o u steps t' →
          Written cwd o t ((target, plan) :: steps) t'

/-! ### Batches in which no target fails -/

theorem exists_written_of_batchFrom
    (h : (batchFrom cwd o t report targets).2.outcome = .ok final) (hok : final.ok) :
    report.ok ∧ ∃ steps, steps.map Prod.fst = targets ∧
      Written cwd o t steps (batchFrom cwd o t report targets).1 := by
  induction targets generalizing t report with
  | nil =>
      obtain rfl : report = final := Except.ok.inj h
      exact ⟨hok, [], rfl, .nil⟩
  | cons target rest ih =>
      rcases hfile : flattenFile t cwd o target with ⟨u, records, failure | result⟩
      · by_cases hown : failure.isOfTarget
        · -- a failure stays in the report
          rw [(batchFrom_of_isOfTarget hfile hown).2] at h
          have hreport := (ih h).1
          simp [Report.ok] at hreport
        · rw [batchFrom_of_not_isOfTarget hfile hown] at h
          cases h
      · rw [(batchFrom_of_ok hfile).2] at h
        rw [(batchFrom_of_ok hfile).1]
        obtain ⟨hreport, steps, hsteps, hwritten⟩ := ih h
        have houtcome : (flattenFile t cwd o target).2.outcome = .ok result := by rw [hfile]
        obtain ⟨plan, hplan, hwrite, -⟩ := flattenFile_eq_ok_iff.1 houtcome
        rw [hfile] at hwrite
        exact ⟨hreport, (target, plan) :: steps, by rw [List.map_cons, hsteps],
          .cons hplan hwrite hwritten⟩

theorem batchFrom_of_written (h : Written cwd o t steps t') (report : Report) :
    (batchFrom cwd o t report (steps.map Prod.fst)).1 = t' ∧
      ∃ final, (batchFrom cwd o t report (steps.map Prod.fst)).2.outcome = .ok final ∧
        final.failed = report.failed := by
  induction h generalizing report with
  | nil => exact ⟨rfl, report, rfl, rfl⟩
  | @cons t u t' target plan steps hplan hwrite _ ih =>
      have hfile := flattenFile_of_written hplan hwrite
      rw [List.map_cons, (batchFrom_of_ok hfile).1, (batchFrom_of_ok hfile).2]
      exact ih { report with flattened := report.flattened ++ [(target.file, plan.result)] }

/-- A batch has no failure to report exactly where its targets are all written. -/
theorem batch_ok_iff :
    (∃ report, (batch t cwd o targets).2.outcome = .ok report ∧ report.ok) ↔
      ∃ steps, steps.map Prod.fst = targets ∧
        Written cwd o t steps (batch t cwd o targets).1 := by
  constructor
  · rintro ⟨report, houtcome, hok⟩
    exact (exists_written_of_batchFrom houtcome hok).2
  · rintro ⟨steps, rfl, hwritten⟩
    obtain ⟨-, final, houtcome, hfailed⟩ := batchFrom_of_written hwritten .empty
    exact ⟨final, houtcome, by simp [Report.ok, hfailed, Report.empty]⟩

namespace Written

theorem batch_eq (h : Written cwd o t steps t') : (batch t cwd o (steps.map Prod.fst)).1 = t' :=
  (batchFrom_of_written h .empty).1

/-! ### What is written -/

/-- One of the steps, with the trees between which it is taken. -/
theorem split (h : Written cwd o t (before ++ step :: after) t') :
    ∃ u v, Written cwd o t before u ∧ (planFile u cwd o step.1).outcome = .ok step.2 ∧
      writeAll u cwd step.2.place step.2.files = (v, .ok ()) ∧ Written cwd o v after t' := by
  induction before generalizing t with
  | nil =>
      cases h with
      | cons hplan hwrite hrest => exact ⟨t, _, .nil, hplan, hwrite, hrest⟩
  | cons first before ih =>
      cases h with
      | cons hplan hwrite hrest =>
          obtain ⟨u, v, hbefore, hstep⟩ := ih hrest
          exact ⟨u, v, .cons hplan hwrite hbefore, hstep⟩

theorem frame (h : Written cwd o t steps t') (hcwd : t.Linkless cwd) :
    Tree.Frame cwd (fun p => ∃ step ∈ steps, Tree.OnTheWay step.2.place.directory p)
      (fun p => ∃ step ∈ steps, p ∈ step.2.files.map Draft.path) t t' := by
  induction h with
  | nil => exact .refl _
  | @cons t u t' target plan steps hplan hwrite _ ih =>
      have hfirst := frame_writeAll hcwd hwrite
      have hrest := ih (hfirst.extension.linkless hcwd)
      refine (hfirst.mono (fun p hp => ⟨_, List.mem_cons_self, hp⟩)
        fun p hp => ⟨_, List.mem_cons_self, hp⟩).trans (hrest.mono ?_ ?_)
      · exact fun p ⟨step, hstep, hp⟩ => ⟨step, List.mem_cons_of_mem _ hstep, hp⟩
      · exact fun p ⟨step, hstep, hp⟩ => ⟨step, List.mem_cons_of_mem _ hstep, hp⟩

theorem extension (h : Written cwd o t steps t') (hcwd : t.Linkless cwd) : t.Extends t' :=
  (h.frame hcwd).extension

end Written

theorem writeDrafts_append_eq_ok (h : writeDrafts t cwd (front ++ back) = (t', .ok ())) :
    ∃ u, writeDrafts t cwd front = (u, .ok ()) ∧ writeDrafts u cwd back = (t', .ok ()) := by
  induction front generalizing t with
  | nil => exact ⟨t, rfl, h⟩
  | cons d front ih =>
      obtain ⟨written, hwritten, h⟩ := writeDrafts_cons_eq_ok_iff.1 h
      obtain ⟨u, hfront, hback⟩ := ih h
      exact ⟨u, writeDrafts_cons_eq_ok_iff.2 ⟨written, hwritten, hfront⟩, hback⟩

/-- A file that is written is what its path leads to. -/
theorem exists_file_of_write (hcwd : t.Linkless cwd) (h : t.write cwd p text = .ok t') :
    ∃ place, t'.locate .newFile cwd p = .ok place ∧ t'.locate .target cwd p = .ok place ∧
      t'.lookup place = some (.file text.toUtf8) := by
  have hextends := Tree.extends_write hcwd h
  obtain ⟨place, hlocate, hdir, rfl⟩ := Tree.write_eq_ok_iff.1 h
  have hne : place ≠ [] :=
    Tree.ne_nil_of_lookup_ne t fun hfound => hdir (by simp [Tree.isDirectoryAt, hfound])
  have hfile : (t.insert place (.file text.toUtf8)).lookup place = some (.file text.toUtf8) :=
    Tree.lookup_insert_self hne
  have hlocate := hextends.locate hlocate
  exact ⟨place, hlocate, Tree.locate_target hlocate (by simp [hfile]), hfile⟩

/-- A file stays as it is while nothing is written where it stands. -/
theorem Tree.Frame.lookup_file (h : Tree.Frame cwd directories written t t')
    (hfile : t.lookup place = some (.file content))
    (hnone : ∀ p, written p → t'.locate .target cwd p ≠ .ok place) :
    t'.lookup place = some (.file content) := by
  by_contra hchanged
  rw [← hfile] at hchanged
  rcases h.changed place hchanged with ⟨hdir, -⟩ | ⟨-, p, hp, hlocate⟩
  · have hkept := h.extension.kept place (by simp [hfile])
    simp [Tree.shapeAt, hfile, hdir, Entry.shape] at hkept
  · exact hnone p hp hlocate

/-- A file that is there is still a file in a tree that extends its own. -/
theorem Tree.Extends.exists_file (h : t.Extends t')
    (hfile : t.lookup place = some (.file content)) :
    ∃ content, t'.lookup place = some (.file content) := by
  have hkept := h.kept place (by simp [hfile])
  rw [Tree.shapeAt, Tree.shapeAt, hfile] at hkept
  cases hfound : t'.lookup place with
  | none => simp [hfound] at hkept
  | some entry => cases entry <;> simp_all [Entry.shape]

/-- The way of writing a file leads to one that is there. -/
def Tree.HasFile (t : Tree) (cwd : Location) (p : Path) : Prop :=
  ∃ place content, t.locate .newFile cwd p = .ok place ∧ t.lookup place = some (.file content)

theorem Tree.HasFile.of_extends (h : t.HasFile cwd p) (hextends : t.Extends t') :
    t'.HasFile cwd p := by
  obtain ⟨place, content, hlocate, hcontent⟩ := h
  obtain ⟨content, hcontent⟩ := hextends.exists_file hcontent
  exact ⟨place, content, hextends.locate hlocate, hcontent⟩

/-- What follows a draft leaves what was written for it, unless it leads to the same place. -/
theorem exists_file_of_writeDrafts (hcwd : t.Linkless cwd)
    (h : writeDrafts t cwd (front ++ d :: back) = (t', .ok ())) :
    ∃ place content, t'.locate .newFile cwd d.path = .ok place ∧
      t'.locate .target cwd d.path = .ok place ∧ t'.lookup place = some (.file content) ∧
        ((∀ other ∈ back, t'.locate .target cwd other.path ≠ .ok place) →
          content = d.text.toUtf8) := by
  obtain ⟨u, hfront, hback⟩ := writeDrafts_append_eq_ok h
  obtain ⟨v, hwrite, hback⟩ := writeDrafts_cons_eq_ok_iff.1 hback
  have hcwdU := (extends_writeDrafts hcwd hfront).linkless hcwd
  have hcwdV := (Tree.extends_write hcwdU hwrite).linkless hcwdU
  have hframe : Tree.Frame cwd (fun _ => False) (fun p => p ∈ back.map Draft.path) v t' :=
    frame_writeDrafts hcwdV hback
  obtain ⟨place, hnew, htarget, hfile⟩ := exists_file_of_write hcwdU hwrite
  obtain ⟨content, hcontent⟩ := hframe.extension.exists_file hfile
  refine ⟨place, content, hframe.extension.locate hnew, hframe.extension.locate htarget, hcontent,
    fun hlast => ?_⟩
  have hkept := hframe.lookup_file hfile fun p hp hlocate => by
    obtain ⟨other, hother, rfl⟩ := List.mem_map.1 hp
    exact hlast other hother hlocate
  simpa [hcontent] using hkept

namespace Written

/-- What a draft's path leads to in the end, and what stands there if the draft is the last one to
lead there. -/
theorem exists_file (h : Written cwd o t (before ++ step :: after) t') (hcwd : t.Linkless cwd)
    (hfiles : step.2.files = front ++ d :: back) :
    ∃ place content, t'.locate .newFile cwd d.path = .ok place ∧
      t'.locate .target cwd d.path = .ok place ∧ t'.lookup place = some (.file content) ∧
        ((∀ other ∈ back, t'.locate .target cwd other.path ≠ .ok place) →
          (∀ later ∈ after, ∀ other ∈ later.2.files,
            t'.locate .target cwd other.path ≠ .ok place) → content = d.text.toUtf8) := by
  obtain ⟨u, v, hbefore, -, hwrite, hafter⟩ := h.split
  have hcwdU := (hbefore.extension hcwd).linkless hcwd
  obtain ⟨made, hmade, hdrafts⟩ := writeAll_eq_ok_iff.1 hwrite
  have hcwdMade := (Tree.extends_makeDirectories hcwdU hmade).linkless hcwdU
  have hcwdV := (extends_writeDrafts hcwdMade hdrafts).linkless hcwdMade
  have hframe := hafter.frame hcwdV
  rw [hfiles] at hdrafts
  obtain ⟨place, content, hnew, htarget, hfile, hlast⟩ :=
    exists_file_of_writeDrafts hcwdMade hdrafts
  obtain ⟨final, hfinal⟩ := hframe.extension.exists_file hfile
  refine ⟨place, final, hframe.extension.locate hnew, hframe.extension.locate htarget, hfinal, ?_⟩
  intro hback hlater
  have hkept := hframe.lookup_file hfile fun p ⟨later, hmem, hp⟩ hlocate => by
    obtain ⟨other, hother, rfl⟩ := List.mem_map.1 hp
    exact hlater later hmem other hother hlocate
  have hsame : final = content := by simpa [hfinal] using hkept
  rw [hsame]
  -- the places of this step's own drafts are the same when all is written
  refine hlast fun other hother hlocate => hback other hother ?_
  exact hframe.extension.locate hlocate

end Written

/-! ### Last drafts -/

/-- Of the members of a list with a property there is a last one. -/
theorem exists_last {α : Type} {q : α → Prop} {as : List α} (h : ∃ a ∈ as, q a) :
    ∃ front a back, as = front ++ a :: back ∧ q a ∧ ∀ b ∈ back, ¬q b := by
  induction as with
  | nil => simp at h
  | cons a as ih =>
      by_cases hrest : ∃ b ∈ as, q b
      · obtain ⟨front, b, back, rfl, hb, hlast⟩ := ih hrest
        exact ⟨a :: front, b, back, rfl, hb, hlast⟩
      · push Not at hrest
        have ha : q a := by
          obtain ⟨b, hb, hq⟩ := h
          rcases List.mem_cons.1 hb with rfl | hb
          · exact hq
          · exact absurd hq (hrest b hb)
        exact ⟨[], a, as, rfl, ha, hrest⟩

namespace Written

/-- Writing the same plans again leaves everything as it is. -/
theorem lookup_again (h : Written cwd o t steps u) (h' : Written cwd o u steps v)
    (hcwd : t.Linkless cwd) (place : Location) : v.lookup place = u.lookup place := by
  have hcwd' := (h.extension hcwd).linkless hcwd
  have hframe := h'.frame hcwd'
  by_contra hchanged
  rcases hframe.changed place hchanged with
    ⟨hdir, p, ⟨step, hstep, hp⟩, hlocate⟩ | ⟨-, p, ⟨step, hstep, hp⟩, hlocate⟩
  · -- the directories on the way to a draft are there when it is written
    obtain ⟨before, after, rfl⟩ := List.append_of_mem hstep
    obtain ⟨_, _, _, hplan, _⟩ := h.split
    obtain ⟨d, hd, last, -, hpath⟩ := draftedInside_of_plan hplan
    obtain ⟨front, back, hfiles⟩ := List.append_of_mem hd
    obtain ⟨_, _, hnew, _⟩ := h.exists_file hcwd hfiles
    obtain ⟨anchor, parts⟩ := p
    obtain ⟨rfl, between, hbetween⟩ := hp
    rw [hpath, ← hbetween, List.append_assoc] at hnew
    obtain ⟨middle, hmiddle, hthere⟩ := Tree.exists_locate_above hnew (by simp)
    obtain rfl : middle = place :=
      Except.ok.inj ((hframe.extension.locate hmiddle).symm.trans hlocate)
    exact hchanged (hdir.trans (Tree.isDirectoryAt_iff.1 hthere).symm)
  · -- the last draft that leads there was the last one before as well
    have hleads : ∃ step ∈ steps, ∃ d ∈ step.2.files, v.locate .target cwd d.path = .ok place := by
      obtain ⟨d, hd, rfl⟩ := List.mem_map.1 hp
      exact ⟨step, hstep, d, hd, hlocate⟩
    obtain ⟨before, step, after, rfl, hstep, hafter⟩ := exists_last hleads
    obtain ⟨front, d, back, hfiles, hd, hback⟩ := exists_last hstep
    push Not at hafter
    obtain ⟨once, content, -, honce, hfile, hlast⟩ := h.exists_file hcwd hfiles
    obtain ⟨again, content', -, hagain, hfile', hlast'⟩ := h'.exists_file hcwd' hfiles
    obtain rfl : once = place := Except.ok.inj ((hframe.extension.locate honce).symm.trans hd)
    obtain rfl : again = once := Except.ok.inj (hagain.symm.trans hd)
    have hearlier : ∀ other : Draft, u.locate .target cwd other.path = .ok again →
        v.locate .target cwd other.path = .ok again := fun _ => hframe.extension.locate
    rw [hfile, hfile', hlast' hback hafter,
      hlast (fun other hother hat => hback other hother (hearlier other hat))
        fun later hlater other hother hat => hafter later hlater other hother (hearlier other hat)]
      at hchanged
    exact hchanged rfl

end Written

/-! ### Writing again -/

/-- Files that are there can be written again. -/
theorem exists_writeDrafts (hcwd : t.Linkless cwd) (hfiles : ∀ d ∈ files, t.HasFile cwd d.path) :
    ∃ t', writeDrafts t cwd files = (t', .ok ()) := by
  induction files generalizing t with
  | nil => exact ⟨t, rfl⟩
  | cons d rest ih =>
      obtain ⟨⟨place, content, hlocate, hcontent⟩, hrest⟩ := List.forall_mem_cons.1 hfiles
      have hwrite : t.write cwd d.path d.text = .ok (t.insert place (.file d.text.toUtf8)) :=
        Tree.write_eq_ok_iff.2 ⟨place, hlocate, by simp [Tree.isDirectoryAt, hcontent], rfl⟩
      have hextends := Tree.extends_write hcwd hwrite
      obtain ⟨t', ht'⟩ := ih (hextends.linkless hcwd) fun other hother =>
        (hrest other hother).of_extends hextends
      exact ⟨t', writeDrafts_cons_eq_ok_iff.2 ⟨_, hwrite, ht'⟩⟩

namespace Written

/-- What one of the steps has written can be written again later on. -/
theorem exists_writeAll (h : Written cwd o t steps u) (hcwd : t.Linkless cwd) (hstep : step ∈ steps)
    (hextends : u.Extends v) :
    ∃ v', writeAll v cwd step.2.place step.2.files = (v', .ok ()) := by
  have hcwd' := hextends.linkless ((h.extension hcwd).linkless hcwd)
  obtain ⟨before, after, rfl⟩ := List.append_of_mem hstep
  have hthere : ∀ d ∈ step.2.files, v.HasFile cwd d.path := by
    intro d hd
    obtain ⟨front, back, hfiles⟩ := List.append_of_mem hd
    obtain ⟨place, content, hnew, -, hcontent, -⟩ := h.exists_file hcwd hfiles
    exact Tree.HasFile.of_extends ⟨place, content, hnew, hcontent⟩ hextends
  -- the directory is on the way to one of the files
  obtain ⟨_, _, _, hplan, -⟩ := h.split
  obtain ⟨d, hd, last, -, hpath⟩ := draftedInside_of_plan hplan
  obtain ⟨_, _, hnew, -⟩ := hthere d hd
  rw [hpath] at hnew
  obtain ⟨middle, hmiddle, hdir⟩ := Tree.exists_locate_above hnew (by simp)
  obtain ⟨made, hmade⟩ :=
    Tree.exists_makeDirectories (Tree.isDirectory_eq_ok_true_iff.2 ⟨middle, hmiddle, hdir⟩)
  have hgrown := Tree.extends_makeDirectories hcwd' hmade
  obtain ⟨v', hv'⟩ := exists_writeDrafts (hgrown.linkless hcwd') fun d hd =>
    (hthere d hd).of_extends hgrown
  exact ⟨v', writeAll_eq_ok_iff.2 ⟨made, hmade, hv'⟩⟩

/-- Steps that are planned alike on all trees of a kind can be taken again on one of that kind, if
taking them does not lead out of it. -/
theorem exists_again {q : Tree → Prop} (h : Written cwd o t steps u) (hcwd : t.Linkless cwd)
    (hplan : ∀ v, q v → ∀ step ∈ steps, (planFile v cwd o step.1).outcome = .ok step.2)
    (hwrite : ∀ v v', q v → ∀ step ∈ steps,
      writeAll v cwd step.2.place step.2.files = (v', .ok ()) → q v') (hu : q u) :
    ∃ v, Written cwd o u steps v := by
  -- what is left to do, on any tree of the kind that extends the one that resulted
  suffices hall : ∀ (rest : List (Target × Plan)) (v : Tree), rest ⊆ steps → u.Extends v → q v →
      ∃ v', Written cwd o v rest v' from hall steps u (List.Subset.refl _) (.refl u) hu
  intro rest
  induction rest with
  | nil => exact fun v _ _ _ => ⟨v, .nil⟩
  | cons step rest ih =>
      intro v hrest hextends hv
      obtain ⟨hstep, hrest⟩ := List.cons_subset.1 hrest
      obtain ⟨v', hv'⟩ := h.exists_writeAll hcwd hstep hextends
      have hcwd' := hextends.linkless ((h.extension hcwd).linkless hcwd)
      have hgrown := hextends.trans (frame_writeAll hcwd' hv').extension
      obtain ⟨final, hfinal⟩ := ih v' hrest hgrown (hwrite v v' hv step hstep hv')
      exact ⟨final, .cons (hplan v hv step hstep) hv' hfinal⟩

end Written

end SolidityFlattener
