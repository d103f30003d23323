import SolidityFlattener.Proofs.Imports.BreadthFirst
import SolidityFlattener.Proofs.Imports.Discovery

/-!
Where a search fails.

A search registers files in breadth-first order: `Search.Ordered` says that what is registered is
the root with what the visited files lead to, and that the visited files are a beginning of it. A
search that fails has come to a file that cannot be loaded, with all files before it loaded; one
that succeeds has loaded all files that can be reached. So it fails exactly where one of these
cannot be loaded, and as the first of them does.
-/

namespace SolidityFlattener

namespace Site

variable {site : Site} {extractor : Source.Extractor} {root p q : Path} {n : Node} {depth : Int}
  {failure : Failure}

/-- The files that a file imports in the order of its text, each once and without the file itself.
Imports that lead nowhere are passed over. -/
def importsOf (site : Site) (extractor : Source.Extractor) (p : Path) : List Path :=
  match site.tree.readText site.cwd p with
  | .error _ => []
  | .ok text =>
    (((extractor.scan text).specifiers.filterMap fun specifier =>
      (resolveImport site p specifier).toOption).filter (· ≠ p)).eraseDups

theorem mem_importsOf :
    q ∈ site.importsOf extractor p ↔ q ≠ p ∧ site.ImportsFile extractor p q := by
  unfold importsOf ImportsFile
  cases hread : site.tree.readText site.cwd p with
  | error fault => simp
  | ok text =>
      have htarget : ∀ specifier, (resolveImport site p specifier).toOption = some q ↔
          resolveImport site p specifier = .ok q := by
        intro specifier
        cases resolveImport site p specifier <;> simp [Except.toOption]
      simp [List.mem_eraseDups, List.mem_filterMap, htarget, and_comm]

/-- A file that imports itself leads nowhere new, so noted or not this reaches the same. -/
theorem reached_importsOf_iff :
    Relation.ReflTransGen (fun p q => q ∈ site.importsOf extractor p) root p ↔
      Relation.ReflTransGen (site.ImportsFile extractor) root p := by
  constructor
  · exact Relation.ReflTransGen.mono (fun _ _ h => (mem_importsOf.1 h).2) _ _
  · intro hreach
    induction hreach with
    | refl => exact .refl
    | @tail p q _ hedge ih =>
        by_cases hself : q = p
        · rwa [hself]
        · exact ih.tail (mem_importsOf.2 ⟨hself, hedge⟩)

theorem Loaded.imports_eq (h : site.Loaded extractor n) :
    n.imports = site.importsOf extractor n.path := by
  obtain ⟨text, targets, hread, htargets, himports, -⟩ := h.exists_targets
  rw [himports, importsOf, hread]
  simp only [filterMap_toOption_of_mapM htargets]

/-! ### Files that cannot be loaded -/

def Loads (site : Site) (extractor : Source.Extractor) (p : Path) : Prop :=
  ∃ n, loadNode site extractor p 0 = .ok n

theorem loadNode_eq_error_iff :
    loadNode site extractor p depth = .error failure ↔
      (∃ fault, site.tree.readText site.cwd p = .error fault ∧ fault.isOfText = true ∧
        failure = .system fault) ∨
      (∃ fault, site.tree.readText site.cwd p = .error fault ∧ fault.isOfText = false ∧
        failure = .unresolved p.text none (some p)) ∨
      ∃ text before specifier after, site.tree.readText site.cwd p = .ok text ∧
        (extractor.scan text).specifiers = before ++ specifier :: after ∧
        (∀ other ∈ before, ∃ q, resolveImport site p other = .ok q) ∧
        resolveImport site p specifier = .error failure := by
  unfold loadNode
  cases hread : site.tree.readText site.cwd p with
  | error fault =>
      dsimp only
      split_ifs with htext
      · simp [htext, eq_comm (a := failure)]
      · simp [htext, eq_comm (a := failure)]
  | ok text =>
      simp only [foldlM_eq_error_iff]
      simp

/-- Why a file is not loaded does not hang on how deep it is. -/
theorem loadNode_error_depth (other : Int)
    (h : loadNode site extractor p depth = .error failure) :
    loadNode site extractor p other = .error failure :=
  loadNode_eq_error_iff.2 (loadNode_eq_error_iff.1 h)

theorem not_loads_of_error (h : loadNode site extractor p depth = .error failure) :
    ¬site.Loads extractor p := by
  rintro ⟨n, hn⟩
  cases hn.symm.trans (loadNode_error_depth 0 h)

theorem Loaded.loads (h : site.Loaded extractor n) : site.Loads extractor n.path := by
  by_contra hnot
  obtain ⟨depth, hdepth⟩ := h
  cases hload : loadNode site extractor n.path 0 with
  | ok m => exact hnot ⟨m, hload⟩
  | error e => cases hdepth.symm.trans (loadNode_error_depth depth hload)

/-- A file that a search from a root comes to: all files before it in breadth-first order can be
loaded. -/
def Meets (site : Site) (extractor : Source.Extractor) (root p : Path) : Prop :=
  ∃ steps before after,
    breadthFirst (site.importsOf extractor) root steps = before ++ p :: after ∧
      ∀ q ∈ before, site.Loads extractor q

theorem meets_root (site : Site) (extractor : Source.Extractor) (root : Path) :
    site.Meets extractor root root := ⟨0, [], [], rfl, by simp⟩

theorem Meets.reached (h : site.Meets extractor root p) :
    Relation.ReflTransGen (site.ImportsFile extractor) root p := by
  obtain ⟨steps, before, after, hsplit, -⟩ := h
  exact reached_importsOf_iff.1 (exists_mem_breadthFirst_iff.1 ⟨steps, by simp [hsplit]⟩)

/-- The first file that cannot be loaded is one that a search comes to. -/
theorem Meets.firstMet (h : site.Meets extractor root p) (hnot : ¬site.Loads extractor p) :
    FirstMet (site.importsOf extractor) root (fun q => ¬site.Loads extractor q) p := by
  obtain ⟨steps, before, after, hsplit, hbefore⟩ := h
  exact ⟨steps, before, after, hsplit, hnot, fun q hq => not_not_intro (hbefore q hq)⟩

end Site

namespace Search

variable {site : Site} {extractor : Source.Extractor} {weight : Weight} {root p q : Path}
  {r : Registry} {n : Node} {visited met targets : List Path} {depth : Int} {s s' : Search}
  {failure : Failure} {trace : Trace Registry}

/-! ### What is registered is in order -/

theorem follow_eq_error_iff :
    (follow site extractor weight depth s q).outcome = .error failure ↔
      q ∉ s.registry.paths ∧ loadNode site extractor q (depth + 1) = .error failure := by
  unfold follow
  rw [Registry.raiseDepth?_eq]
  by_cases hq : q ∈ s.registry.paths
  · simp [hq]
  · simp [hq, Trace.outcome_bind_eq_error_iff]

theorem paths_follow (h : s.registry.paths = met.eraseDups)
    (hrun : (follow site extractor weight depth s q).outcome = .ok s') :
    s'.registry.paths = (met ++ [q]).eraseDups := by
  have hmem : q ∈ s.registry.paths ↔ q ∈ met := by rw [h, List.mem_eraseDups]
  rw [eraseDups_concat]
  rcases follow_eq_ok_iff.1 hrun with ⟨hq, rfl⟩ | ⟨hq, child, hload, rfl⟩
  · rw [if_pos (hmem.1 hq), ← h, Registry.paths_modify]
  · have hpath := Site.loadNode_path hload
    rw [if_neg (hmem.not.1 hq), ← h, Registry.add_eq_push (by rwa [hpath]), Registry.paths_push,
      hpath]

theorem paths_followAll (h : s.registry.paths = met.eraseDups)
    (hrun : (targets.foldlM (follow site extractor weight depth) s).outcome = .ok s') :
    s'.registry.paths = (met ++ targets).eraseDups := by
  induction targets generalizing s met with
  | nil =>
      obtain rfl : s = s' := Except.ok.inj hrun
      simpa using h
  | cons target targets ih =>
      rw [List.foldlM_cons, Trace.outcome_bind_eq_ok_iff] at hrun
      obtain ⟨next, hnext, hrest⟩ := hrun
      rw [ih (paths_follow h hnext) hrest, List.append_assoc, List.singleton_append]

theorem visit_eq_error_iff (hget : s.registry.get? p = some n) :
    (visit site extractor weight s p).outcome = .error failure ↔
      (n.imports.foldlM (follow site extractor weight n.depth) s).outcome = .error failure := by
  unfold visit
  rw [hget, Trace.outcome_bind_eq_error_iff]
  simp

/-- What is registered is the root with what the visited files lead to, and begins with the visited
files themselves. -/
structure Ordered (site : Site) (extractor : Source.Extractor) (root : Path) (visited : List Path)
    (s : Search) : Prop where
  met : s.registry.paths = metFrom (site.importsOf extractor) root visited
  waiting : s.registry.paths = visited ++ s.queue
  within : ∃ steps, visited <+: breadthFirst (site.importsOf extractor) root steps

namespace Ordered

theorem start (h : loadNode site extractor root 0 = .ok n) :
    Ordered site extractor root [] ⟨Registry.empty.add n, [root]⟩ := by
  have hpath := Site.loadNode_path h
  have hpaths : (Registry.empty.add n).paths = [root] := by simp [Registry.paths, hpath]
  exact ⟨by simp [hpaths, metFrom, List.eraseDups_cons], by simp [hpaths], 0, List.nil_prefix⟩

/-- The next file to visit is the next in breadth-first order. -/
theorem next_within (h : Ordered site extractor root visited s) {rest : List Path}
    (hqueue : s.queue = p :: rest) :
    ∃ steps, visited ++ [p] <+: breadthFirst (site.importsOf extractor) root steps := by
  obtain ⟨steps, hsteps⟩ := h.within
  refine ⟨steps + 1, List.IsPrefix.trans ?_ (metFrom_mono hsteps)⟩
  rw [← h.met, h.waiting, hqueue]
  simp

theorem visit (h : Ordered site extractor root visited s) {rest : List Path}
    (hexplored : Explored site extractor root s.queue s.registry) (hqueue : s.queue = p :: rest)
    (hrun : (visit site extractor weight { s with queue := rest } p).outcome = .ok s') :
    Ordered site extractor root (visited ++ [p]) s' := by
  have hwithin := h.next_within hqueue
  have hwaiting := h.waiting
  rw [hqueue] at hexplored hwaiting
  obtain ⟨-, new, hpaths, hnew⟩ := Explored.visit (s := { s with queue := rest }) hexplored hrun
  obtain ⟨n, hn, rfl⟩ := Registry.mem_paths.1 (hexplored.queued p List.mem_cons_self)
  have hfollowed := (visit_eq_ok_iff (s := { s with queue := rest }) (Registry.get?_path hn)).1 hrun
  refine ⟨?_, ?_, hwithin⟩
  · rw [paths_followAll (s := { s with queue := rest }) h.met hfollowed,
      (hexplored.loaded n hn).imports_eq]
    simp [metFrom]
  · rw [hpaths, hnew]
    simp [hwaiting]

/-- A visit that gets to a new import has loaded all that is before it in the order. -/
theorem meets_of_visit {before after : List Path} {rest : List Path}
    (h : Ordered site extractor root visited s)
    (hexplored : Explored site extractor root s.queue s.registry)
    (hqueue : s.queue = n.path :: rest) (hn : n ∈ s.registry.nodes) (himports : n.imports = before ++ q :: after)
    (hbefore : (before.foldlM (follow site extractor weight n.depth)
      { s with queue := rest }).outcome = .ok s') (hnew : q ∉ s'.registry.paths) :
    site.Meets extractor root q := by
  obtain ⟨steps, hsteps⟩ := h.next_within hqueue
  rw [hqueue] at hexplored
  have hreached : ∀ q ∈ before, Relation.ReflTransGen (site.ImportsFile extractor) root q := by
    intro q hq
    have hmem : q ∈ n.imports := himports ▸ List.mem_append_left _ hq
    have hedge := ((hexplored.loaded n hn).mem_imports_iff.1 hmem).2
    exact (hexplored.reached n.path (Registry.path_mem_paths hn)).tail hedge
  have hloaded := (Explored.followAll (s := { s with queue := rest }) hexplored hreached
    hbefore).1.loaded
  have hpaths := paths_followAll (s := { s with queue := rest }) h.met hbefore
  have hfound : s'.registry.paths ++ [q] <+:
      breadthFirst (site.importsOf extractor) root (steps + 1) := by
    have hconcat :=
      eraseDups_concat (root :: visited.flatMap (site.importsOf extractor) ++ before) q
    rw [← hpaths, if_neg (by rwa [← List.mem_eraseDups, ← hpaths])] at hconcat
    rw [← hconcat]
    refine (eraseDups_mono ?_).trans (metFrom_mono hsteps)
    simp [← (hexplored.loaded n hn).imports_eq, himports]
  obtain ⟨tail, htail⟩ := hfound
  refine ⟨steps + 1, s'.registry.paths, tail, by simpa using htail.symm, fun p hp => ?_⟩
  obtain ⟨m, hm, rfl⟩ := Registry.mem_paths.1 hp
  exact (hloaded m hm).loads

/-- A visit that fails comes to the first file that cannot be loaded. -/
theorem firstMet_of_visit (h : Ordered site extractor root visited s) {rest : List Path}
    (hexplored : Explored site extractor root s.queue s.registry) (hqueue : s.queue = p :: rest)
    (hrun : (Search.visit site extractor weight { s with queue := rest } p).outcome =
      .error failure) :
    ∃ q, FirstMet (site.importsOf extractor) root (fun q => ¬site.Loads extractor q) q ∧
      loadNode site extractor q 0 = .error failure := by
  obtain ⟨n, hn, rfl⟩ := Registry.mem_paths.1 (hexplored.queued p (by simp [hqueue]))
  obtain ⟨before, q, after, s', himports, hbefore, hfollow⟩ :=
    Trace.exists_of_outcome_foldlM_eq_error
      ((visit_eq_error_iff (s := { s with queue := rest }) (Registry.get?_path hn)).1 hrun)
  obtain ⟨hnew, hload⟩ := follow_eq_error_iff.1 hfollow
  have hmeets := h.meets_of_visit hexplored hqueue hn himports hbefore hnew
  exact ⟨q, hmeets.firstMet (Site.not_loads_of_error hload), Site.loadNode_error_depth 0 hload⟩

/-- A search that fails has come to the first file that cannot be loaded. -/
theorem firstMet_of_completes (h : Ordered site extractor root visited s)
    (hexplored : Explored site extractor root s.queue s.registry)
    (hrun : Completes site extractor weight s trace) (hfails : trace.outcome = .error failure) :
    ∃ q, FirstMet (site.importsOf extractor) root (fun q => ¬site.Loads extractor q) q ∧
      loadNode site extractor q 0 = .error failure := by
  induction hrun generalizing visited with
  | done => cases hfails
  | failed hqueue hvisit =>
      obtain rfl := Except.error.inj hfails
      exact h.firstMet_of_visit hexplored hqueue hvisit
  | next hqueue hvisit _ ih =>
      have hordered := h.visit hexplored hqueue hvisit
      rw [hqueue] at hexplored
      exact ih hordered (hexplored.visit hvisit).1 hfails

end Ordered

end Search

/-! ### Discovery -/

section Discovery

variable {site : Site} {extractor : Source.Extractor} {weight : Weight} {root path p : Path}
  {r : Registry} {failure : Failure}

/-- A discovery that succeeds has loaded all that the root leads to. -/
theorem loads_of_discover (hsound : site.Sound)
    (h : (discover site extractor weight root).outcome = .ok (path, r))
    (hreach : Relation.ReflTransGen (site.ImportsFile extractor) path p) :
    site.Loads extractor p := by
  obtain ⟨hpath, node, hnode, found, hfound, rfl⟩ := discover_eq_ok_iff.1 h
  have hexplored : Search.Explored site extractor path [] found :=
    (Search.Explored.start hnode).of_completes (completes_start hsound hpath hnode) hfound
  obtain ⟨n, hn, rfl⟩ := Registry.mem_paths.1 (hexplored.mem_paths_iff.2 hreach)
  exact (hexplored.loaded n hn).loads

/-- The first file in breadth-first order that cannot be loaded, and why. -/
def Site.FailsAt (site : Site) (extractor : Source.Extractor) (path p : Path)
    (failure : Failure) : Prop :=
  FirstMet (site.importsOf extractor) path (fun q => ¬site.Loads extractor q) p ∧
    loadNode site extractor p 0 = .error failure

theorem discover_eq_error_cases :
    (discover site extractor weight root).outcome = .error failure ↔
      (∃ fault, site.tree.realPath true site.cwd root = .error fault ∧
        unresolvedOr (.unresolved root.text none (some root)) fault = failure) ∨
      ∃ path, site.tree.realPath true site.cwd root = .ok path ∧
        (loadNode site extractor path 0 = .error failure ∨
          ∃ node, loadNode site extractor path 0 = .ok node ∧
            (Search.run site extractor weight (site.tree.entries.length + 1)
              ⟨Registry.empty.add node, [path]⟩).outcome = .error failure) := by
  unfold discover
  simp only [Trace.outcome_bind_eq_error_iff, Trace.outcome_ofExcept, mapError_eq_error_iff,
    mapError_eq_ok_iff, Trace.outcome_pure, reduceCtorEq, and_false, exists_false, or_false]

theorem exists_failsAt_of_discover (hsound : site.Sound)
    (hpath : site.tree.realPath true site.cwd root = .ok path)
    (h : (discover site extractor weight root).outcome = .error failure) :
    ∃ p, site.FailsAt extractor path p failure := by
  rcases discover_eq_error_cases.1 h with ⟨fault, hfault, -⟩ | ⟨path', hpath', hfails⟩
  · cases hpath.symm.trans hfault
  · obtain rfl : path = path' := Except.ok.inj (hpath.symm.trans hpath')
    rcases hfails with hload | ⟨node, hnode, hrun⟩
    · exact ⟨path, ⟨0, [], [], rfl, Site.not_loads_of_error hload, by simp⟩, hload⟩
    · exact (Search.Ordered.start hnode).firstMet_of_completes (Search.Explored.start hnode)
        (completes_start hsound hpath hnode) hrun

/-- Discovery fails where the root has no canonical path, or as the first file that cannot be
loaded. -/
theorem discover_eq_error_iff (hsound : site.Sound) :
    (discover site extractor weight root).outcome = .error failure ↔
      (∃ fault, site.tree.realPath true site.cwd root = .error fault ∧
        unresolvedOr (.unresolved root.text none (some root)) fault = failure) ∨
      ∃ path p, site.tree.realPath true site.cwd root = .ok path ∧
        site.FailsAt extractor path p failure := by
  constructor
  · intro h
    rcases discover_eq_error_cases.1 h with hroot | ⟨path, hpath, -⟩
    · exact .inl hroot
    · obtain ⟨p, hp⟩ := exists_failsAt_of_discover hsound hpath h
      exact .inr ⟨path, p, hpath, hp⟩
  · rintro (hroot | ⟨path, p, hpath, hp⟩)
    · exact discover_eq_error_cases.2 (.inl hroot)
    · -- whatever discovery does, it has to be as at the first file that cannot be loaded
      cases hend : (discover site extractor weight root).outcome with
      | ok found =>
          obtain ⟨path', r⟩ := found
          obtain rfl : path = path' :=
            Except.ok.inj (hpath.symm.trans (discover_eq_ok_iff.1 hend).1)
          exact absurd (loads_of_discover hsound hend (Site.reached_importsOf_iff.1 hp.1.reached))
            hp.1.is_bad
      | error other =>
          obtain ⟨q, hq⟩ := exists_failsAt_of_discover hsound hpath hend
          obtain rfl := hp.1.unique hq.1
          rw [Except.error.inj (hp.2.symm.trans hq.2)]

end Discovery

end SolidityFlattener
