import SolidityFlattener.Proofs.Imports.Search

/-!
All imported files are found.

`Search.Completes` is the loop of visits without a bound on their number. On a sound site a search
that starts at a file ends, with just what the bounded loop answers, since each file is registered
under the one canonical path of an entry. So the registry of a root holds exactly the files that
can be reached from it.
-/

namespace SolidityFlattener

namespace Search

variable {site : Site} {extractor : Source.Extractor} {weight : Weight} {root p q : Path}
  {r : Registry} {n : Node} {waiting : List Path} {s s' : Search} {rounds : ℕ}
  {trace : Trace Registry}

/-- Visits one after another until the queue is empty or a visit fails, with what they tell. -/
inductive Completes (site : Site) (extractor : Source.Extractor) (weight : Weight) :
    Search → Trace Registry → Prop
  | done {s : Search} : s.queue = [] → Completes site extractor weight s (pure s.registry)
  | failed {s : Search} {path : Path} {rest : List Path} {e : Failure} :
      s.queue = path :: rest →
        (visit site extractor weight { s with queue := rest } path).outcome = .error e →
          Completes site extractor weight s
            ⟨(visit site extractor weight { s with queue := rest } path).records, .error e⟩
  | next {s s' : Search} {path : Path} {rest : List Path} {trace : Trace Registry} :
      s.queue = path :: rest →
        (visit site extractor weight { s with queue := rest } path).outcome = .ok s' →
          Completes site extractor weight s' trace →
            Completes site extractor weight s
              ⟨(visit site extractor weight { s with queue := rest } path).records ++
                trace.records, trace.outcome⟩

namespace Explored

/-- On a sound site all files are registered under their canonical paths. -/
theorem canonicalFile (h : Explored site extractor root waiting r) (hsound : site.Sound)
    (hroot : site.tree.realPath true site.cwd p = .ok root) (hq : q ∈ r.paths) :
    site.CanonicalFile q := by
  obtain ⟨path, hpath⟩ := Site.exists_realPath_of_reached hroot (h.reached q hq)
  obtain ⟨n, hn, rfl⟩ := Registry.mem_paths.1 hq
  obtain ⟨text, targets, hread, -⟩ := (h.loaded n hn).exists_targets
  exact hsound.canonicalFile hpath hread

/-- So there are no more of them than the tree has entries. -/
theorem size_le (h : Explored site extractor root waiting r) (hsound : site.Sound)
    (hroot : site.tree.realPath true site.cwd p = .ok root) :
    r.paths.length ≤ site.tree.entries.length := by
  have hsub : r.paths ⊆ site.tree.entries.map fun e => Path.ofLocation e.1 := fun q hq =>
    (h.canonicalFile hsound hroot hq).mem_entries
  have hnodup : r.paths.Nodup := r.nodup_paths
  simpa using (List.subperm_of_subset hnodup hsub).length_le

/-- Enough rounds for the files that are still to be found and those still waiting complete a
search. -/
theorem completes (h : Explored site extractor root s.queue s.registry) (hsound : site.Sound)
    (hroot : site.tree.realPath true site.cwd p = .ok root)
    (hrounds : site.tree.entries.length + s.queue.length < rounds + s.registry.paths.length) :
    Completes site extractor weight s (run site extractor weight rounds s) := by
  induction rounds generalizing s with
  | zero =>
      have := h.size_le hsound hroot
      omega
  | succ rounds ih =>
      unfold run
      split
      · next hqueue => exact .done hqueue
      · next path rest hqueue =>
        rw [hqueue] at h hrounds
        cases hvisit :
          (Search.visit site extractor weight { s with queue := rest } path).outcome with
        | error e =>
            rw [Trace.bind_of_error hvisit]
            exact .failed hqueue hvisit
        | ok s' =>
            rw [Trace.bind_of_ok hvisit]
            obtain ⟨hexplored, new, hpaths, hnew⟩ := h.visit hvisit
            refine .next hqueue hvisit (ih hexplored ?_)
            -- what is new is registered as well as queued, so one round fewer is enough
            simp only [List.length_cons] at hrounds
            rw [hpaths, hnew, List.length_append, List.length_append]
            simp only
            omega

/-- What a completed search registers leaves nothing to explore. -/
theorem of_completes (h : Explored site extractor root s.queue s.registry)
    (hrun : Completes site extractor weight s trace) (hr : trace.outcome = .ok r) :
    Explored site extractor root [] r := by
  induction hrun with
  | done hqueue =>
      cases hr
      rwa [hqueue] at h
  | failed => cases hr
  | next hqueue hvisit _ ih =>
      rw [hqueue] at h
      exact ih (h.visit hvisit).1 hr

/-- However many rounds a search is given, what it registers is explored so far. -/
theorem of_run (h : Explored site extractor root s.queue s.registry)
    (hrun : (run site extractor weight rounds s).outcome = .ok r) :
    ∃ waiting, Explored site extractor root waiting r := by
  induction rounds generalizing s with
  | zero =>
      obtain rfl : s.registry = r := Except.ok.inj hrun
      exact ⟨s.queue, h⟩
  | succ rounds ih =>
      unfold run at hrun
      split at hrun
      · obtain rfl : s.registry = r := Except.ok.inj hrun
        exact ⟨s.queue, h⟩
      · next path rest hqueue =>
        rw [hqueue] at h
        obtain ⟨s', hvisit, hrest⟩ := Trace.outcome_bind_eq_ok_iff.1 hrun
        exact ih (h.visit hvisit).1 hrest

end Explored

end Search

/-! ### Inheritance linked -/

namespace Registry

variable {r : Registry} {n : Node} {p q : Path}

theorem mem_paths_of_mem_matching {bases : List Text} (h : p ∈ r.matching bases) :
    p ∈ r.paths := by
  obtain ⟨n, hn, rfl⟩ := List.mem_map.1 h
  obtain ⟨base, -, hn⟩ := List.mem_flatMap.1 hn
  exact path_mem_paths (List.mem_filter.1 hn).1

@[simp] theorem paths_linkInheritance : r.linkInheritance.paths = r.paths := paths_mapNodes _ _

theorem mem_nodes_linkInheritance :
    n ∈ r.linkInheritance.nodes ↔ ∃ m ∈ r.nodes, r.linkNode m = n := List.mem_map

/-- Linked files are noted as bases only where they are registered. -/
theorem mem_inherits_linkNode (h : q ∈ (r.linkNode n).inherits) : q ∈ n.inherits ∨ q ∈ r.paths := by
  change q ∈ (r.matching n.bases).foldl _ n.inherits at h
  rw [Node.foldl_noteRequirement, List.mem_append, List.mem_eraseDups] at h
  exact h.imp_right fun h => mem_paths_of_mem_matching (List.mem_filter.1 h).1

theorem requires_imports_linkInheritance :
    r.linkInheritance.Requires .imports p q ↔ r.Requires .imports p q := by
  constructor
  · rintro ⟨n, hn, rfl, hq⟩
    obtain ⟨m, hm, rfl⟩ := mem_nodes_linkInheritance.1 hn
    exact ⟨m, hm, rfl, hq⟩
  · rintro ⟨n, hn, rfl, hq⟩
    exact ⟨_, mem_nodes_linkInheritance.2 ⟨n, hn, rfl⟩, rfl, hq⟩

end Registry

/-! ### Discovery -/

section Discovery

variable {site : Site} {extractor : Source.Extractor} {weight : Weight} {root path : Path}
  {r : Registry}

theorem discover_eq_ok_iff :
    (discover site extractor weight root).outcome = .ok (path, r) ↔
      site.tree.realPath true site.cwd root = .ok path ∧
        ∃ node, loadNode site extractor path 0 = .ok node ∧
          ∃ found, (Search.run site extractor weight (site.tree.entries.length + 1)
            ⟨Registry.empty.add node, [path]⟩).outcome = .ok found ∧
              r = found.linkInheritance := by
  unfold discover
  simp only [Trace.outcome_bind_eq_ok_iff, Trace.outcome_ofExcept, mapError_eq_ok_iff,
    Trace.outcome_pure, Except.ok.injEq, Prod.mk.injEq]
  constructor
  · rintro ⟨path', hpath, node, hnode, found, hfound, rfl, rfl⟩
    exact ⟨hpath, node, hnode, found, hfound, rfl⟩
  · rintro ⟨hpath, node, hnode, found, hfound, rfl⟩
    exact ⟨path, hpath, node, hnode, found, hfound, rfl, rfl⟩

/-- Where all imports are registered, imports lead from the root to every file found. -/
theorem root_requires_of_discover
    (h : (discover site extractor weight root).outcome = .ok (path, r))
    (hclosed : r.Closed .imports) :
    path ∈ r.paths ∧ ∀ p ∈ r.paths, Relation.ReflTransGen (r.Requires .imports) path p := by
  obtain ⟨-, node, hnode, found, hfound, rfl⟩ := discover_eq_ok_iff.1 h
  obtain ⟨waiting, hexplored⟩ := (Search.Explored.start hnode).of_run hfound
  have hclosed' : found.Closed .imports := by
    intro n hn q hq
    simpa using hclosed _ (Registry.mem_nodes_linkInheritance.2 ⟨n, hn, rfl⟩) q hq
  rw [Registry.paths_linkInheritance]
  refine ⟨hexplored.rooted, fun p hp => ?_⟩
  exact Relation.ReflTransGen.mono (fun _ _ => Registry.requires_imports_linkInheritance.2) _ _
    (hexplored.requires_of_reached hclosed' (hexplored.reached p hp)).2

/-- The search for the imports of a file ends on a sound site. -/
theorem completes_start (hsound : site.Sound)
    (hpath : site.tree.realPath true site.cwd root = .ok path) {node : Node}
    (hnode : loadNode site extractor path 0 = .ok node) :
    Search.Completes site extractor weight ⟨Registry.empty.add node, [path]⟩
      (Search.run site extractor weight (site.tree.entries.length + 1)
        ⟨Registry.empty.add node, [path]⟩) := by
  have hstart : Search.Explored site extractor path [path] (Registry.empty.add node) :=
    .start hnode
  refine Search.Explored.completes (s := ⟨Registry.empty.add node, [path]⟩) hstart hsound hpath ?_
  simp [Registry.paths]

end Discovery

/-! ### Three files in a ring -/

section Ring

variable {weight : Weight}

def ringEntry (name text : String) : Location × Entry :=
  ([name.toList], .file (Text.toUtf8 text.toList))

/-- Three files that import each other in a ring, against the inheritance of two of them. -/
def ringSite : Site where
  tree := ⟨[
    ringEntry "A.sol" "import \"./C.sol\";\ncontract A is B \x7b\x7d",
    ringEntry "B.sol" "import \"./A.sol\";\ncontract B is C \x7b\x7d",
    ringEntry "C.sol" "import \"./B.sol\";\ncontract C \x7b\x7d"]⟩
  cwd := []
  packageRoot := none

def ringNode (name next : String) (bases : List String) (body : String) (depth : Int) : Node :=
  { Node.ofPath (Path.top name) with
    body := [body.toList], imports := [Path.top next], bases := bases.map String.toList,
    depth := depth }

def ringA : Int → Node := ringNode "A.sol" "C.sol" ["B"] "contract A is B \x7b\x7d"

def ringB : Int → Node := ringNode "B.sol" "A.sol" ["C"] "contract B is C \x7b\x7d"

def ringC : Int → Node := ringNode "C.sol" "B.sol" [] "contract C \x7b\x7d"

/-- The registry of the ring from its third file on. -/
def ringRegistry : Registry where
  nodes := [ringC 3, { ringB 1 with inherits := [Path.top "C.sol"] },
    { ringA 2 with inherits := [Path.top "B.sol"] }]
  nodup_paths := by decide

theorem loadNode_ringA (depth : Int) :
    loadNode ringSite Source.byLines (Path.top "A.sol") depth = .ok (ringA depth) :=
  Site.loadNode_eq ⟨["./C.sol".toList], [], ["contract A is B \x7b\x7d".toList]⟩ ["B".toList]
    [Path.top "C.sol"] depth (by cbv) (by decide +kernel) (by decide +kernel) (by cbv)

theorem loadNode_ringB (depth : Int) :
    loadNode ringSite Source.byLines (Path.top "B.sol") depth = .ok (ringB depth) :=
  Site.loadNode_eq ⟨["./A.sol".toList], [], ["contract B is C \x7b\x7d".toList]⟩ ["C".toList]
    [Path.top "A.sol"] depth (by cbv) (by decide +kernel) (by decide +kernel) (by cbv)

theorem loadNode_ringC (depth : Int) :
    loadNode ringSite Source.byLines (Path.top "C.sol") depth = .ok (ringC depth) :=
  Site.loadNode_eq ⟨["./B.sol".toList], [], ["contract C \x7b\x7d".toList]⟩ []
    [Path.top "B.sol"] depth (by cbv) (by decide +kernel) (by decide +kernel) (by cbv)

/-- One import leads from each file to the next, and that of the last leads back. -/
theorem outcome_run_ring :
    (Search.run ringSite Source.byLines weight 4
      ⟨Registry.empty.add (ringC 0), [Path.top "C.sol"]⟩).outcome =
      .ok ((((Registry.empty.add (ringC 0)).add (ringB 1)).add (ringA 2)).modify
        (Path.top "C.sol") (·.raiseDepth 3)) := by
  refine (Search.outcome_run_cons (Search.visit_of_new (n := ringC 0) (by decide +kernel) rfl
    (by decide +kernel) (loadNode_ringB 1))).trans ?_
  refine (Search.outcome_run_cons (Search.visit_of_new (n := ringB 1) (by decide +kernel) rfl
    (by decide +kernel) (loadNode_ringA 2))).trans ?_
  refine (Search.outcome_run_cons (Search.visit_of_known (n := ringA 2) (by decide +kernel) rfl
    (by decide +kernel))).trans ?_
  rfl

theorem discover_ring :
    (discover ringSite Source.byLines weight (.ofText "C.sol".toList)).outcome =
      .ok (Path.top "C.sol", ringRegistry) :=
  discover_eq_ok_iff.2 ⟨by cbv, ringC 0, loadNode_ringC 0, _, outcome_run_ring,
    by decide +kernel⟩

theorem ringSite_sound : ringSite.Sound where
  named := by
    unfold Tree.Named Tree.IsEntryName
    decide
  cwd := by cbv

end Ring

/-- Discovery on a sound site. Its loop ends, with what as many rounds answer as the tree has
entries and one more. What it registers are exactly the files that can be reached from the root,
each under its one canonical path, with its imports in the order of its text; and whatever a
registered file requires is registered. -/
theorem discover_registers_reachable (site : Site) (hsound : site.Sound)
    (extractor : Source.Extractor) (weight : Weight) (root : Path) :
    (∀ path node, site.tree.realPath true site.cwd root = .ok path →
      loadNode site extractor path 0 = .ok node →
        Search.Completes site extractor weight ⟨Registry.empty.add node, [path]⟩
          (Search.run site extractor weight (site.tree.entries.length + 1)
            ⟨Registry.empty.add node, [path]⟩)) ∧
      ∀ path r, (discover site extractor weight root).outcome = .ok (path, r) →
        site.tree.realPath true site.cwd root = .ok path ∧
        (∀ p, p ∈ r.paths ↔ Relation.ReflTransGen (site.ImportsFile extractor) path p) ∧
        r.paths.Nodup ∧
        (∀ p ∈ r.paths, site.CanonicalFile p) ∧
        (∀ p ∈ r.paths, ∀ q ∈ r.paths, site.tree.locate .target site.cwd p =
          site.tree.locate .target site.cwd q → p = q) ∧
        (∀ n ∈ r.nodes, ∃ text targets, site.tree.readText site.cwd n.path = .ok text ∧
          (extractor.scan text).specifiers.mapM (resolveImport site n.path) = .ok targets ∧
          n.imports = (targets.filter (· ≠ n.path)).eraseDups) ∧
        ∀ kind, r.Closed kind := by
  constructor
  · intro path node hpath hnode
    exact completes_start hsound hpath hnode
  · intro path r h
    obtain ⟨hpath, node, hnode, found, hfound, rfl⟩ := discover_eq_ok_iff.1 h
    have hexplored : Search.Explored site extractor path [] found :=
      (Search.Explored.start hnode).of_completes (completes_start hsound hpath hnode) hfound
    have hcanonical : ∀ p ∈ found.linkInheritance.paths, site.CanonicalFile p := by
      intro p hp
      rw [Registry.paths_linkInheritance] at hp
      exact hexplored.canonicalFile hsound hpath hp
    refine ⟨hpath, ?_, found.linkInheritance.nodup_paths, hcanonical, ?_, ?_, ?_⟩
    · intro p
      rw [Registry.paths_linkInheritance]
      exact hexplored.mem_paths_iff
    · intro p hp q hq
      exact (hcanonical p hp).eq_of_locate (hcanonical q hq)
    · intro n hn
      obtain ⟨m, hm, rfl⟩ := Registry.mem_nodes_linkInheritance.1 hn
      obtain ⟨text, targets, hread, htargets, himports, -⟩ := (hexplored.loaded m hm).exists_targets
      exact ⟨text, targets, hread, htargets, himports⟩
    · intro kind n hn q hq
      obtain ⟨m, hm, rfl⟩ := Registry.mem_nodes_linkInheritance.1 hn
      rw [Registry.paths_linkInheritance]
      cases kind with
      | imports => exact hexplored.closed m hm q hq
      | inherits =>
          obtain ⟨_, _, _, _, _, hinherits⟩ := (hexplored.loaded m hm).exists_targets
          simpa [hinherits] using Registry.mem_inherits_linkNode hq

theorem discover_ring_registers_reachable :
    ringSite.Sound ∧
      (discover ringSite Source.byLines .debug (.ofText "C.sol".toList)).outcome =
        .ok (Path.top "C.sol", ringRegistry) ∧
      (∀ p, p ∈ ringRegistry.paths ↔
        Relation.ReflTransGen (ringSite.ImportsFile Source.byLines) (Path.top "C.sol") p) ∧
      ∀ kind, ringRegistry.Closed kind := by
  obtain ⟨-, hreach, -, -, -, -, hclosed⟩ :=
    (discover_registers_reachable ringSite ringSite_sound Source.byLines .debug
      (.ofText "C.sol".toList)).2 _ _ discover_ring
  exact ⟨ringSite_sound, discover_ring, hreach, hclosed⟩

end SolidityFlattener
