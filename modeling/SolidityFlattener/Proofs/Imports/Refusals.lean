import SolidityFlattener.Proofs.Imports.FirstFailure
import SolidityFlattener.Proofs.Tree.Access

/-!
What a search refuses, told by the files.

A file is broken if it cannot be read or one of its imports leads to no file. On a proper site these
are the files that cannot be loaded: to whatever file an import leads there is a canonical path, so
the import resolves. A search fails exactly where its root is missing or leads to a broken file, and
it names the first broken one. Only an import that is too long to ask for is refused by the system,
without the file being named.
-/

namespace SolidityFlattener

/-- A sound site as a system has it: no name holds a null character, and the package root is a path
that was read. -/
structure Site.Proper (site : Site) : Prop extends site.Sound where
  nulFree : site.tree.NulFree
  packageRoot : ∀ p ∈ site.packageRoot, p.Tidy

namespace Site

variable {site : Site} {extractor : Source.Extractor} {root path p q : Path} {specifier : Text}
  {depth : Int} {failure : Failure}

/-! ### Canonical paths -/

theorem Sound.tidy_of_realPath (hsound : site.Sound)
    (h : site.tree.realPath true site.cwd q = .ok p) : p.Tidy := by
  obtain ⟨place, rfl, hplain⟩ := hsound.exists_plain_of_realPath h
  exact hplain.tidy hsound.named

theorem Sound.isOfText_of_readText {fault : Fault} (hsound : site.Sound)
    (h : site.tree.realPath true site.cwd q = .ok p)
    (hread : site.tree.readText site.cwd p = .error fault) : fault.isOfText = false := by
  obtain ⟨place, rfl, hplain⟩ := hsound.exists_plain_of_realPath h
  exact hplain.isOfText_of_readText hread

/-! ### Imports that lead to files -/

/-- An import leads to a file. -/
def NamesFile (site : Site) (p : Path) (specifier : Text) : Prop :=
  ∃ path, candidate? p specifier site.packageRoot = some path ∧
    site.tree.isFile site.cwd path = .ok true

/-- An import is too long for the system to say whether it leads to a file. -/
def NamesTooLong (site : Site) (p : Path) (specifier : Text) : Prop :=
  ∃ path, candidate? p specifier site.packageRoot = some path ∧
    site.tree.isFile site.cwd path = .error .nameTooLong

theorem NamesTooLong.not_namesFile (h : site.NamesTooLong p specifier) :
    ¬site.NamesFile p specifier := by
  rintro ⟨path, hpath, hfile⟩
  obtain ⟨other, hother, hlong⟩ := h
  obtain rfl : other = path := Option.some.inj (hother.symm.trans hpath)
  cases hlong.symm.trans hfile

theorem Proper.tidy_candidate (hproper : site.Proper) (hp : p.Tidy)
    (h : candidate? p specifier site.packageRoot = some path) : path.Tidy := by
  unfold candidate? at h
  split at h
  · obtain ⟨root, hroot, rfl⟩ := Option.map_eq_some_iff.1 h
    exact (hproper.packageRoot root hroot).joinText _
  · obtain rfl := Option.some.inj h
    exact hp.parent.joinText _
  · obtain rfl := Option.some.inj h
    exact hp.parent.joinText _

/-- An import resolves, is too long, or leads to no file and is said not to. -/
theorem Proper.resolveImport_cases (hproper : site.Proper) (hp : p.Tidy) (specifier : Text) :
    (site.NamesFile p specifier ∧ ∃ q, resolveImport site p specifier = .ok q) ∨
      (site.NamesTooLong p specifier ∧
        resolveImport site p specifier = .error (.system .nameTooLong)) ∨
      (¬site.NamesFile p specifier ∧ ¬site.NamesTooLong p specifier ∧
        resolveImport site p specifier =
          .error (.unresolved specifier (some p) (candidate? p specifier site.packageRoot))) := by
  unfold resolveImport resolveImportWith NamesFile NamesTooLong
  cases hcandidate : candidate? p specifier site.packageRoot with
  | none => simp
  | some path =>
      cases hfile : site.tree.isFile site.cwd path with
      | error fault =>
          obtain rfl := Tree.eq_nameTooLong_of_isFile hfile
          simp [hfile]
      | ok found =>
          cases found with
          | false => simp [hfile]
          | true =>
              have htidy := hproper.tidy_candidate hp hcandidate
              obtain ⟨q, hq⟩ := Tree.exists_realPath_of_isFile hproper.named hproper.nulFree
                (hproper.plain_origin path) htidy hfile
              simp [hfile, hq, Except.mapError]

theorem Proper.exists_resolveImport_iff (hproper : site.Proper) (hp : p.Tidy) :
    (∃ q, resolveImport site p specifier = .ok q) ↔ site.NamesFile p specifier := by
  rcases hproper.resolveImport_cases hp specifier with
    ⟨hnames, hok⟩ | ⟨hlong, herror⟩ | ⟨hnot, -, herror⟩
  · exact iff_of_true hok hnames
  · exact iff_of_false (by simp [herror]) hlong.not_namesFile
  · exact iff_of_false (by simp [herror]) hnot

theorem Proper.resolveImport_eq_error_iff (hproper : site.Proper) (hp : p.Tidy) :
    resolveImport site p specifier = .error failure ↔ ¬site.NamesFile p specifier ∧
      ((site.NamesTooLong p specifier ∧ failure = .system .nameTooLong) ∨
        (¬site.NamesTooLong p specifier ∧ failure =
          .unresolved specifier (some p) (candidate? p specifier site.packageRoot))) := by
  rcases hproper.resolveImport_cases hp specifier with
    ⟨hnames, q, hq⟩ | ⟨hlong, herror⟩ | ⟨hnot, hshort, herror⟩
  · simp [hnames, hq]
  · simp [hlong, hlong.not_namesFile, herror, eq_comm]
  · simp [hnot, hshort, herror, eq_comm]

/-! ### Broken files -/

/-- The text of a file cannot be had. -/
def Unreadable (site : Site) (p : Path) : Prop :=
  ∀ text, site.tree.readText site.cwd p ≠ .ok text

/-- A file cannot be read, or one of its imports leads to no file. -/
def Broken (site : Site) (extractor : Source.Extractor) (p : Path) : Prop :=
  site.Unreadable p ∨ ∃ text, site.tree.readText site.cwd p = .ok text ∧
    ∃ specifier ∈ (extractor.scan text).specifiers, ¬site.NamesFile p specifier

/-- The first import of a file that leads to no file. -/
def FirstMissing (site : Site) (extractor : Source.Extractor) (p : Path) (specifier : Text) :
    Prop :=
  ∃ text before after, site.tree.readText site.cwd p = .ok text ∧
    (extractor.scan text).specifiers = before ++ specifier :: after ∧
    (∀ other ∈ before, site.NamesFile p other) ∧ ¬site.NamesFile p specifier

theorem FirstMissing.broken (h : site.FirstMissing extractor p specifier) :
    site.Broken extractor p := by
  obtain ⟨text, before, after, hread, hsplit, -, hnot⟩ := h
  exact .inr ⟨text, hread, specifier, by simp [hsplit], hnot⟩

/-- What a broken file is refused with. -/
inductive Refuses (site : Site) (extractor : Source.Extractor) (p : Path) : Failure → Prop
  | unreadable : site.Unreadable p → Refuses site extractor p (.unresolved p.text none (some p))
  | missing {specifier : Text} :
      site.FirstMissing extractor p specifier → ¬site.NamesTooLong p specifier →
        Refuses site extractor p
          (.unresolved specifier (some p) (candidate? p specifier site.packageRoot))
  | tooLong {specifier : Text} :
      site.FirstMissing extractor p specifier → site.NamesTooLong p specifier →
        Refuses site extractor p (.system .nameTooLong)

theorem Proper.broken_iff (hproper : site.Proper) (hp : p.Tidy) :
    site.Broken extractor p ↔ ¬site.Loads extractor p := by
  have hloads : site.Loads extractor p ↔ ∃ text, site.tree.readText site.cwd p = .ok text ∧
      ∀ specifier ∈ (extractor.scan text).specifiers, site.NamesFile p specifier := by
    simp only [← hproper.exists_resolveImport_iff hp, ← exists_mapM_eq_ok_iff]
    unfold Loads
    constructor
    · rintro ⟨n, hn⟩
      obtain ⟨text, targets, hread, htargets, -⟩ := loadNode_eq_ok_iff.1 hn
      exact ⟨text, hread, targets, htargets⟩
    · rintro ⟨text, hread, targets, htargets⟩
      exact ⟨_, loadNode_eq_ok_iff.2 ⟨text, targets, hread, htargets, rfl⟩⟩
  rw [hloads]
  unfold Broken Unreadable
  cases site.tree.readText site.cwd p <;> simp

/-- On a proper site a file is refused for what is broken about it. -/
theorem Proper.loadNode_eq_error_iff (hproper : site.Proper)
    (hreal : site.tree.realPath true site.cwd q = .ok p) :
    loadNode site extractor p depth = .error failure ↔ site.Refuses extractor p failure := by
  have hp := hproper.tidy_of_realPath hreal
  rw [Site.loadNode_eq_error_iff]
  simp only [hproper.exists_resolveImport_iff hp, hproper.resolveImport_eq_error_iff hp]
  constructor
  · rintro (⟨fault, hfault, htext, -⟩ | ⟨fault, hfault, -, rfl⟩ |
      ⟨text, before, specifier, after, hread, hsplit, hbefore, hnot, hwhy⟩)
    · have hnot : fault.isOfText = false := hproper.isOfText_of_readText hreal hfault
      simp [hnot] at htext
    · exact .unreadable fun text htext => by cases hfault.symm.trans htext
    · have hfirst : site.FirstMissing extractor p specifier :=
        ⟨text, before, after, hread, hsplit, hbefore, hnot⟩
      rcases hwhy with ⟨hlong, rfl⟩ | ⟨hshort, rfl⟩
      · exact .tooLong hfirst hlong
      · exact .missing hfirst hshort
  · intro hrefuses
    cases hrefuses with
    | unreadable hread =>
        cases hfault : site.tree.readText site.cwd p with
        | ok text => exact absurd hfault (hread text)
        | error fault =>
            exact .inr (.inl ⟨fault, rfl, hproper.isOfText_of_readText hreal hfault, rfl⟩)
    | missing hfirst hshort =>
        obtain ⟨text, before, after, hread, hsplit, hbefore, hnot⟩ := hfirst
        exact .inr (.inr ⟨text, before, _, after, hread, hsplit, hbefore, hnot,
          .inr ⟨hshort, rfl⟩⟩)
    | tooLong hfirst hlong =>
        obtain ⟨text, before, after, hread, hsplit, hbefore, hnot⟩ := hfirst
        exact .inr (.inr ⟨text, before, _, after, hread, hsplit, hbefore, hnot,
          .inl ⟨hlong, rfl⟩⟩)

/-- A search fails where its root has no canonical path, or as its first broken file does. -/
theorem Proper.discover_eq_error_iff {weight : Weight} (hproper : site.Proper) :
    (discover site extractor weight root).outcome = .error failure ↔
      (∃ fault, site.tree.realPath true site.cwd root = .error fault ∧
        unresolvedOr (.unresolved root.text none (some root)) fault = failure) ∨
      ∃ path p, site.tree.realPath true site.cwd root = .ok path ∧
        FirstMet (site.importsOf extractor) path (site.Broken extractor) p ∧
        site.Refuses extractor p failure := by
  rw [SolidityFlattener.discover_eq_error_iff hproper.toSound]
  refine or_congr_right (exists_congr fun path => exists_congr fun p => and_congr_right ?_)
  intro hpath
  have hreal : ∀ {q}, Relation.ReflTransGen (fun p q => q ∈ site.importsOf extractor p) path q →
      ∃ p, site.tree.realPath true site.cwd p = .ok q := fun hreach =>
    exists_realPath_of_reached hpath (reached_importsOf_iff.1 hreach)
  have hfirst_iff : FirstMet (site.importsOf extractor) path (fun q => ¬site.Loads extractor q) p ↔
      FirstMet (site.importsOf extractor) path (site.Broken extractor) p := by
    refine firstMet_congr fun q hreach => ?_
    obtain ⟨origin, horigin⟩ := hreal hreach
    exact (hproper.broken_iff (hproper.tidy_of_realPath horigin)).symm
  rw [FailsAt, hfirst_iff]
  refine and_congr_right fun hfirst => ?_
  obtain ⟨origin, horigin⟩ := hreal hfirst.reached
  exact hproper.loadNode_eq_error_iff horigin

/-- A path leads to nothing that has a canonical path. -/
def Missing (site : Site) (p : Path) : Prop :=
  ∀ path, site.tree.realPath true site.cwd p ≠ .ok path

/-- So a search fails exactly where something that it comes to is missing or broken. -/
theorem Proper.discover_fails_iff (hproper : site.Proper) (weight : Weight) :
    (∃ failure, (discover site extractor weight root).outcome = .error failure) ↔
      site.Missing root ∨ ∃ path p, site.tree.realPath true site.cwd root = .ok path ∧
        Relation.ReflTransGen (site.ImportsFile extractor) path p ∧ site.Broken extractor p := by
  constructor
  · rintro ⟨failure, h⟩
    rcases hproper.discover_eq_error_iff.1 h with ⟨fault, hfault, -⟩ | ⟨path, p, hpath, hfirst, -⟩
    · exact .inl fun path hpath => by cases hfault.symm.trans hpath
    · exact .inr ⟨path, p, hpath, reached_importsOf_iff.1 hfirst.reached, hfirst.is_bad⟩
  · intro h
    cases hend : (discover site extractor weight root).outcome with
    | error failure => exact ⟨failure, rfl⟩
    | ok found =>
        -- a search that succeeds has a root, and has loaded what it leads to
        obtain ⟨start, r⟩ := found
        have hstart := (discover_eq_ok_iff.1 hend).1
        rcases h with hmissing | ⟨path, p, hpath, hreach, hbroken⟩
        · exact absurd hstart (hmissing start)
        · obtain rfl : start = path := Except.ok.inj (hstart.symm.trans hpath)
          obtain ⟨origin, horigin⟩ := exists_realPath_of_reached hpath hreach
          exact absurd (loads_of_discover hproper.toSound hend hreach)
            ((hproper.broken_iff (hproper.tidy_of_realPath horigin)).1 hbroken)

end Site

/-! ### Searches that fail by what leads nowhere -/

def Failure.IsUnresolved (failure : Failure) : Prop :=
  ∃ specifier importer candidate, failure = .unresolved specifier importer candidate

@[simp] theorem Failure.not_isUnresolved_system (fault : Fault) :
    ¬(Failure.system fault).IsUnresolved := by
  simp [Failure.IsUnresolved]

/-! ### Two broken files -/

section Chain

variable {weight : Weight}

/-- A root that imports a file with two imports, both of which go wrong: the first leads to a broken
file and the second to none. -/
def chainSite : Site where
  tree := ⟨[
    ringEntry "A.sol" "import \"./B.sol\";\nimport \"./Gone.sol\";",
    ringEntry "B.sol" "import \"@lib/C.sol\";",
    ringEntry "R.sol" "import \"./A.sol\";"]⟩
  cwd := []
  packageRoot := none

theorem chainSite_proper : chainSite.Proper where
  named := by
    unfold Tree.Named Tree.IsEntryName
    decide
  cwd := by cbv
  nulFree := by
    unfold Tree.NulFree
    decide
  packageRoot := by simp [chainSite]

theorem realPath_chain :
    chainSite.tree.realPath true chainSite.cwd (.ofText "R.sol".toList) =
      .ok (Path.top "R.sol") := by
  cbv

theorem loadNode_chainR :
    loadNode chainSite Source.byLines (Path.top "R.sol") 0 =
      .ok { Node.ofPath (Path.top "R.sol") with imports := [Path.top "A.sol"] } :=
  Site.loadNode_eq ⟨["./A.sol".toList], [], []⟩ [] [Path.top "A.sol"] 0 (by cbv)
    (by decide +kernel) (by decide +kernel) (by cbv)

theorem loadNode_chainA :
    loadNode chainSite Source.byLines (Path.top "A.sol") 0 =
      .error (.unresolved "./Gone.sol".toList (some (Path.top "A.sol"))
        (some (Path.top "Gone.sol"))) := by
  refine Site.loadNode_eq_error_iff.2 (.inr (.inr ⟨_, ["./B.sol".toList], "./Gone.sol".toList, [],
    by cbv, by decide +kernel, ?_, by cbv⟩))
  intro other hother
  rw [List.mem_singleton.1 hother]
  exact ⟨Path.top "B.sol", by cbv⟩

/-- The second file in breadth-first order is the first that cannot be loaded. -/
theorem discover_chain :
    (discover chainSite Source.byLines weight (.ofText "R.sol".toList)).outcome =
      .error (.unresolved "./Gone.sol".toList (some (Path.top "A.sol"))
        (some (Path.top "Gone.sol"))) := by
  have himports : chainSite.importsOf Source.byLines (Path.top "R.sol") = [Path.top "A.sol"] :=
    (Site.loaded_of_loadNode loadNode_chainR).imports_eq.symm
  refine (discover_eq_error_iff chainSite_proper.toSound).2
    (.inr ⟨_, Path.top "A.sol", realPath_chain, ⟨1, [Path.top "R.sol"], [], ?_, ?_, ?_⟩,
      loadNode_chainA⟩)
  · simp only [breadthFirst, metFrom, List.flatMap_singleton, himports]
    decide
  · exact Site.not_loads_of_error loadNode_chainA
  · intro p hp
    rw [List.mem_singleton.1 hp]
    exact not_not_intro ⟨_, loadNode_chainR⟩

end Chain

/-- A search that does not end in any other way is refused exactly where its root is missing or
leads over imports to a broken file. It is refused for the missing root, or for the first broken
file in breadth-first order: as unreadable, or for the first import that leads to no file. -/
theorem discover_refuses_first_broken (site : Site) (hproper : site.Proper)
    (extractor : Source.Extractor) (weight : Weight) (root : Path)
    (hend : ∀ failure, (discover site extractor weight root).outcome = .error failure →
      failure.IsUnresolved) :
    ((∃ failure, failure.IsUnresolved ∧
        (discover site extractor weight root).outcome = .error failure) ↔
      site.Missing root ∨ ∃ path p, site.tree.realPath true site.cwd root = .ok path ∧
        Relation.ReflTransGen (site.ImportsFile extractor) path p ∧ site.Broken extractor p) ∧
    ∀ failure, (discover site extractor weight root).outcome = .error failure →
      (site.Missing root ∧ failure = .unresolved root.text none (some root)) ∨
      ∃ path p, site.tree.realPath true site.cwd root = .ok path ∧
        FirstMet (site.importsOf extractor) path (site.Broken extractor) p ∧
        ((site.Unreadable p ∧ failure = .unresolved p.text none (some p)) ∨
          ∃ specifier, site.FirstMissing extractor p specifier ∧
            failure =
              .unresolved specifier (some p) (candidate? p specifier site.packageRoot)) := by
  constructor
  · refine Iff.trans ?_ (hproper.discover_fails_iff weight)
    exact exists_congr fun failure => and_iff_right_of_imp (hend failure)
  · intro failure h
    have hunresolved := hend failure h
    rcases hproper.discover_eq_error_iff.1 h with
      ⟨fault, hfault, hfailure⟩ | ⟨path, p, hpath, hfirst, hrefuses⟩
    · have hmissing : site.Missing root := fun path hpath => by cases hfault.symm.trans hpath
      unfold unresolvedOr at hfailure
      split_ifs at hfailure
      · exact .inl ⟨hmissing, hfailure.symm⟩
      · exact absurd (hfailure ▸ hunresolved) (Failure.not_isUnresolved_system fault)
    · refine .inr ⟨path, p, hpath, hfirst, ?_⟩
      cases hrefuses with
      | unreadable hread => exact .inl ⟨hread, rfl⟩
      | missing hmissing _ => exact .inr ⟨_, hmissing, rfl⟩
      | tooLong _ _ => exact absurd hunresolved (Failure.not_isUnresolved_system _)

theorem discover_refuses_chain :
    chainSite.Proper ∧
      (∀ failure, (discover chainSite Source.byLines .debug (.ofText "R.sol".toList)).outcome =
        .error failure → failure.IsUnresolved) ∧
      FirstMet (chainSite.importsOf Source.byLines) (Path.top "R.sol")
        (chainSite.Broken Source.byLines) (Path.top "A.sol") ∧
      chainSite.FirstMissing Source.byLines (Path.top "A.sol") "./Gone.sol".toList := by
  have hend : ∀ failure,
      (discover chainSite Source.byLines .debug (.ofText "R.sol".toList)).outcome =
        .error failure → failure.IsUnresolved := by
    intro failure h
    exact ⟨_, _, _, Except.error.inj (h.symm.trans discover_chain)⟩
  obtain ⟨-, hfirst⟩ := discover_refuses_first_broken chainSite chainSite_proper Source.byLines
    .debug (.ofText "R.sol".toList) hend
  refine ⟨chainSite_proper, hend, ?_⟩
  rcases hfirst _ discover_chain with
    ⟨hmissing, -⟩ | ⟨path, p, hpath, hfirst, ⟨-, hfailure⟩ | ⟨specifier, hmissing, hfailure⟩⟩
  · exact absurd realPath_chain (hmissing _)
  · simp at hfailure
  · obtain rfl : Path.top "R.sol" = path := Except.ok.inj (realPath_chain.symm.trans hpath)
    obtain ⟨rfl, rfl, -⟩ : "./Gone.sol".toList = specifier ∧ Path.top "A.sol" = p ∧ _ := by
      simpa using hfailure
    exact ⟨hfirst, hmissing⟩

end SolidityFlattener
