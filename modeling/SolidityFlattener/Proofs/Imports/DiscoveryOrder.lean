import SolidityFlattener.Proofs.Graph.FirstImports
import SolidityFlattener.Proofs.Imports.FirstFailure

/-!
The order in which files are found.

`Search.Visits` is one turn of a search: the first waiting file leaves the queue and its imports
are followed. What holds of a search at its start and is kept by a turn holds of the last state,
the one with an empty queue, whose registry is the answer. There all registered files have been
visited, so that the registry is in breadth-first order from its root.
-/

namespace SolidityFlattener

namespace Search

variable {site : Site} {extractor : Source.Extractor} {weight : Weight} {root : Path}
  {r : Registry} {visited : List Path} {s t u : Search} {trace : Trace Registry}

/-! ### Turns of a search -/

/-- One turn of a search: a visit to the first file that waits. -/
def Visits (site : Site) (extractor : Source.Extractor) (weight : Weight) (s t : Search) : Prop :=
  ∃ path rest, s.queue = path :: rest ∧
    (visit site extractor weight { s with queue := rest } path).outcome = .ok t

theorem rightUnique_visits : Relator.RightUnique (Visits site extractor weight) := by
  rintro s t u ⟨path, rest, hqueue, ht⟩ ⟨path', rest', hqueue', hu⟩
  obtain ⟨rfl, rfl⟩ := List.cons_eq_cons.1 (hqueue.symm.trans hqueue')
  exact Except.ok.inj (ht.symm.trans hu)

/-- A completed search that answers has made its turns until nothing waited. -/
theorem Completes.exists_last (h : Completes site extractor weight s trace)
    (hr : trace.outcome = .ok r) :
    ∃ last, Relation.ReflTransGen (Visits site extractor weight) s last ∧ last.queue = [] ∧
      last.registry = r := by
  induction h with
  | @done s hqueue => exact ⟨s, .refl, hqueue, Except.ok.inj hr⟩
  | failed => cases hr
  | next hqueue hvisit _ ih =>
      obtain ⟨last, hturns, hlast⟩ := ih hr
      exact ⟨last, .head ⟨_, _, hqueue, hvisit⟩ hturns, hlast⟩

/-- Every state of a search leads on to the last one. -/
theorem turns_to_last (hlast : Relation.ReflTransGen (Visits site extractor weight) s t)
    (hqueue : t.queue = []) (h : Relation.ReflTransGen (Visits site extractor weight) s u) :
    Relation.ReflTransGen (Visits site extractor weight) u t := by
  rcases Relation.ReflTransGen.total_of_right_unique rightUnique_visits h hlast with hon | hback
  · exact hon
  · rcases hback.cases_head with rfl | ⟨next, ⟨path, rest, hwaits, -⟩, -⟩
    · exact .refl
    · rw [hqueue] at hwaits
      cases hwaits

/-- The visited files stay visited, and what is registered stays in order. -/
theorem Ordered.turns (h : Ordered site extractor root visited s)
    (hexplored : Explored site extractor root s.queue s.registry)
    (hturns : Relation.ReflTransGen (Visits site extractor weight) s t) :
    (∃ visited', Ordered site extractor root visited' t) ∧
      Explored site extractor root t.queue t.registry := by
  induction hturns with
  | refl => exact ⟨⟨visited, h⟩, hexplored⟩
  | tail _ hvisits ih =>
      obtain ⟨⟨visited', hordered⟩, hexplored⟩ := ih
      obtain ⟨path, rest, hqueue, hvisit⟩ := hvisits
      refine ⟨⟨visited' ++ [path], hordered.visit hexplored hqueue hvisit⟩, ?_⟩
      rw [hqueue] at hexplored
      exact (hexplored.visit hvisit).1

/-- A search whose queue is empty has registered its files in breadth-first order. -/
theorem Ordered.breadthFirst (h : Ordered site extractor root visited s)
    (hexplored : Explored site extractor root s.queue s.registry) (hqueue : s.queue = []) :
    s.registry.BreadthFirst root where
  paths_eq := by
    have hvisited : s.registry.paths = visited := by simpa [hqueue] using h.waiting
    have himports : s.registry.paths.flatMap (site.importsOf extractor) =
        s.registry.nodes.flatMap Node.imports := by
      rw [Registry.paths, List.flatMap_map]
      exact List.flatMap_congr fun n hn => (hexplored.loaded n hn).imports_eq.symm
    rw [← himports]
    conv_lhs => rw [h.met, metFrom, ← hvisited]
  nodup_imports := by
    intro n hn
    obtain ⟨_, targets, -, -, himports, -⟩ := (hexplored.loaded n hn).exists_targets
    rw [himports]
    exact nodup_eraseDups _

/-! ### Imports followed one by one -/

theorem followAll_of_new {depth : Int} {q : Path} {targets : List Path} {child : Node}
    (hnew : q ∉ s.registry.paths) (hload : loadNode site extractor q (depth + 1) = .ok child) :
    ((q :: targets).foldlM (follow site extractor weight depth) s).outcome =
      (targets.foldlM (follow site extractor weight depth)
        ⟨s.registry.add child, s.queue ++ [child.path]⟩).outcome := by
  rw [List.foldlM_cons, Trace.bind_of_ok (follow_eq_ok_iff.2 (.inr ⟨hnew, child, hload, rfl⟩))]

theorem followAll_of_known {depth : Int} {q : Path} {targets : List Path}
    (hknown : q ∈ s.registry.paths) :
    ((q :: targets).foldlM (follow site extractor weight depth) s).outcome =
      (targets.foldlM (follow site extractor weight depth)
        ⟨s.registry.modify q (·.raiseDepth (depth + 1)), s.queue⟩).outcome := by
  rw [List.foldlM_cons, Trace.bind_of_ok (follow_eq_ok_iff.2 (.inl ⟨hknown, rfl⟩))]

end Search

/-! ### Discovery -/

namespace Registry

variable {r : Registry} {n : Node} {p q root : Path} {i j : ℕ}

/-- Linked files import what they did. -/
theorem BreadthFirst.linkInheritance (h : r.BreadthFirst root) :
    r.linkInheritance.BreadthFirst root where
  paths_eq := by
    have himports : (r.nodes.map r.linkNode).flatMap Node.imports =
        r.nodes.flatMap Node.imports := by
      rw [List.flatMap_map]
      rfl
    rw [paths_linkInheritance, h.paths_eq, ← himports]
    rfl
  nodup_imports := by
    intro n hn
    obtain ⟨m, hm, rfl⟩ := mem_nodes_linkInheritance.1 hn
    exact h.nodup_imports m hm

end Registry

section Discovery

variable {site : Site} {extractor : Source.Extractor} {weight : Weight} {root path : Path}
  {r : Registry}

/-- The turns of a discovery that succeeds, from the root alone to the last state. -/
theorem exists_turns_of_discover (hsound : site.Sound)
    (h : (discover site extractor weight root).outcome = .ok (path, r)) :
    ∃ node last, loadNode site extractor path 0 = .ok node ∧
      Relation.ReflTransGen (Search.Visits site extractor weight)
        ⟨Registry.empty.add node, [path]⟩ last ∧
      last.queue = [] ∧ last.registry.linkInheritance = r := by
  obtain ⟨hpath, node, hnode, found, hfound, rfl⟩ := discover_eq_ok_iff.1 h
  obtain ⟨last, hturns, hqueue, rfl⟩ :=
    (completes_start hsound hpath hnode).exists_last hfound
  exact ⟨node, last, hnode, hturns, hqueue, rfl⟩

theorem breadthFirst_of_discover (hsound : site.Sound)
    (h : (discover site extractor weight root).outcome = .ok (path, r)) :
    r.BreadthFirst path := by
  obtain ⟨node, last, hnode, hturns, hqueue, rfl⟩ := exists_turns_of_discover hsound h
  obtain ⟨⟨visited, hordered⟩, hexplored⟩ :=
    (Search.Ordered.start hnode).turns (.start hnode) hturns
  exact (hordered.breadthFirst hexplored hqueue).linkInheritance

/-- Imports lead from the root to every file found, and all of them are registered. -/
theorem reached_of_discover (hsound : site.Sound)
    (h : (discover site extractor weight root).outcome = .ok (path, r)) {p : Path}
    (hp : p ∈ r.paths) : Relation.ReflTransGen (r.Requires .imports) path p := by
  obtain ⟨node, last, hnode, hturns, hqueue, hlast⟩ := exists_turns_of_discover hsound h
  obtain ⟨-, hexplored⟩ := (Search.Ordered.start hnode).turns (.start hnode) hturns
  rw [hqueue] at hexplored
  have hclosed : r.Closed .imports := by
    intro n hn q hq
    rw [← hlast] at hn ⊢
    obtain ⟨m, hm, rfl⟩ := Registry.mem_nodes_linkInheritance.1 hn
    rw [Registry.paths_linkInheritance]
    exact hexplored.closed m hm q hq
  exact (root_requires_of_discover h hclosed).2 p hp

end Discovery

/-! ### Four files in a web -/

section Web

variable {weight : Weight}

/-- A root with two imports, a file that both lead to, and imports across and back to the root. -/
def webSite : Site where
  tree := ⟨[
    ringEntry "R.sol" "import \"./A.sol\";\nimport \"./B.sol\";",
    ringEntry "A.sol" "import \"./C.sol\";",
    ringEntry "B.sol" "import \"./A.sol\";\nimport \"./C.sol\";",
    ringEntry "C.sol" "import \"./R.sol\";"]⟩
  cwd := []
  packageRoot := none

def webNode (name : String) (imports : List String) (depth : Int) : Node :=
  { Node.ofPath (Path.top name) with imports := imports.map Path.top, depth := depth }

def webR : Int → Node := webNode "R.sol" ["A.sol", "B.sol"]

def webA : Int → Node := webNode "A.sol" ["C.sol"]

def webB : Int → Node := webNode "B.sol" ["A.sol", "C.sol"]

def webC : Int → Node := webNode "C.sol" ["R.sol"]

/-- The registry of the web from its root on. -/
def webRegistry : Registry where
  nodes := [webR 3, webA 2, webB 1, webC 2]
  nodup_paths := by decide

theorem loadNode_webR (depth : Int) :
    loadNode webSite Source.byLines (Path.top "R.sol") depth = .ok (webR depth) :=
  Site.loadNode_eq ⟨["./A.sol".toList, "./B.sol".toList], [], []⟩ []
    [Path.top "A.sol", Path.top "B.sol"] depth (by cbv) (by decide +kernel) (by decide +kernel)
    (by cbv)

theorem loadNode_webA (depth : Int) :
    loadNode webSite Source.byLines (Path.top "A.sol") depth = .ok (webA depth) :=
  Site.loadNode_eq ⟨["./C.sol".toList], [], []⟩ [] [Path.top "C.sol"] depth (by cbv)
    (by decide +kernel) (by decide +kernel) (by cbv)

theorem loadNode_webB (depth : Int) :
    loadNode webSite Source.byLines (Path.top "B.sol") depth = .ok (webB depth) :=
  Site.loadNode_eq ⟨["./A.sol".toList, "./C.sol".toList], [], []⟩ []
    [Path.top "A.sol", Path.top "C.sol"] depth (by cbv) (by decide +kernel) (by decide +kernel)
    (by cbv)

theorem loadNode_webC (depth : Int) :
    loadNode webSite Source.byLines (Path.top "C.sol") depth = .ok (webC depth) :=
  Site.loadNode_eq ⟨["./R.sol".toList], [], []⟩ [] [Path.top "R.sol"] depth (by cbv)
    (by decide +kernel) (by decide +kernel) (by cbv)

/-- The first three files as the visit to the root leaves them. -/
def webFound : Registry := ((Registry.empty.add (webR 0)).add (webA 1)).add (webB 1)

theorem visit_webR :
    (Search.visit webSite Source.byLines weight ⟨Registry.empty.add (webR 0), []⟩
      (Path.top "R.sol")).outcome = .ok ⟨webFound, [Path.top "A.sol", Path.top "B.sol"]⟩ := by
  rw [Search.visit_eq_ok_iff (n := webR 0) (by decide +kernel)]
  exact (Search.followAll_of_new (by decide +kernel) (loadNode_webA 1)).trans
    (Search.followAll_of_new (by decide +kernel) (loadNode_webB 1))

/-- Both imports of the third file lead to files that are registered. -/
theorem visit_webB :
    (Search.visit webSite Source.byLines weight
      ⟨webFound.add (webC 2), [Path.top "C.sol"]⟩ (Path.top "B.sol")).outcome =
      .ok ⟨((webFound.add (webC 2)).modify (Path.top "A.sol") (·.raiseDepth 2)).modify
        (Path.top "C.sol") (·.raiseDepth 2), [Path.top "C.sol"]⟩ := by
  rw [Search.visit_eq_ok_iff (n := webB 1) (by decide +kernel)]
  exact (Search.followAll_of_known (by decide +kernel)).trans
    (Search.followAll_of_known (by decide +kernel))

theorem outcome_run_web :
    (Search.run webSite Source.byLines weight 5
      ⟨Registry.empty.add (webR 0), [Path.top "R.sol"]⟩).outcome = .ok webRegistry := by
  refine (Search.outcome_run_cons visit_webR).trans ?_
  refine (Search.outcome_run_cons (Search.visit_of_new (n := webA 1) (by decide +kernel) rfl
    (by decide +kernel) (loadNode_webC 2))).trans ?_
  refine (Search.outcome_run_cons visit_webB).trans ?_
  refine (Search.outcome_run_cons (Search.visit_of_known (n := webC 2) (by decide +kernel) rfl
    (by decide +kernel))).trans ?_
  rfl

theorem discover_web :
    (discover webSite Source.byLines weight (.ofText "R.sol".toList)).outcome =
      .ok (Path.top "R.sol", webRegistry) :=
  discover_eq_ok_iff.2 ⟨by cbv, webR 0, loadNode_webR 0, _, outcome_run_web, by decide +kernel⟩

theorem webSite_sound : webSite.Sound where
  named := by
    unfold Tree.Named Tree.IsEntryName
    decide
  cwd := by cbv

end Web

/-- The files that discovery finds on a sound site stand in breadth-first order. The root is the
first; every file has a distance from it, and the distances never fall along the registry; every
other file is imported somewhere, and two of them stand in the order of their first imports, told
by the index of the importer and then by the position among its imports. -/
theorem discover_in_breadthFirst_order (site : Site) (hsound : site.Sound)
    (extractor : Source.Extractor) (weight : Weight) (root path : Path) (r : Registry)
    (h : (discover site extractor weight root).outcome = .ok (path, r)) :
    r.paths.head? = some path ∧
      (∀ p ∈ r.paths, ∃ d, r.IsDistance path p d) ∧
      (∀ p ∈ r.paths, ∀ q ∈ r.paths, r.paths.idxOf p ≤ r.paths.idxOf q →
        ∀ d e, r.IsDistance path p d → r.IsDistance path q e → d ≤ e) ∧
      (∀ p ∈ r.paths, p ≠ path → ∃ i j, r.FirstImportedAt p i j) ∧
      ∀ p q i j k l, p ≠ path → q ≠ path → r.FirstImportedAt p i j → r.FirstImportedAt q k l →
        (r.paths.idxOf p < r.paths.idxOf q ↔ toLex (i, j) < toLex (k, l)) := by
  have horder := breadthFirst_of_discover hsound h
  refine ⟨horder.head?_paths, ?_, ?_, ?_, ?_⟩
  · intro p hp
    exact Registry.exists_isDistance (reached_of_discover hsound h hp)
  · intro p hp q _ hle d e hd he
    exact horder.distance_le hp hle hd he
  · intro p hp hroot
    exact horder.exists_firstImportedAt hp hroot
  · intro p q i j k l hproot hqroot hp hq
    exact horder.idxOf_lt_iff hp hproot hq hqroot

/-- In the web the third file stands before the fourth: the root imports the one, and only a later
file the other. -/
theorem discover_web_in_breadthFirst_order :
    webSite.Sound ∧
      (discover webSite Source.byLines .debug (.ofText "R.sol".toList)).outcome =
        .ok (Path.top "R.sol", webRegistry) ∧
      webRegistry.paths.head? = some (Path.top "R.sol") ∧
      webRegistry.FirstImportedAt (Path.top "B.sol") 0 1 ∧
      webRegistry.FirstImportedAt (Path.top "C.sol") 1 0 ∧
      webRegistry.paths.idxOf (Path.top "B.sol") < webRegistry.paths.idxOf (Path.top "C.sol") := by
  obtain ⟨hhead, -, -, -, horder⟩ := discover_in_breadthFirst_order webSite webSite_sound
    Source.byLines .debug (.ofText "R.sol".toList) _ _ discover_web
  have hfirst : webRegistry.FirstImportedAt (Path.top "B.sol") 0 1 := ⟨webR 3, rfl, rfl, by simp⟩
  have hsecond : webRegistry.FirstImportedAt (Path.top "C.sol") 1 0 :=
    ⟨webA 2, rfl, rfl, by decide⟩
  refine ⟨webSite_sound, discover_web, hhead, hfirst, hsecond, ?_⟩
  rw [horder _ _ 0 1 1 0 (by decide) (by decide) hfirst hsecond, Prod.Lex.toLex_lt_toLex]
  exact .inl Nat.zero_lt_one

end SolidityFlattener
