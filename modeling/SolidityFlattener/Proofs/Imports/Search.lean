import SolidityFlattener.Proofs.Graph.Edges
import SolidityFlattener.Proofs.Imports.Loading

/-!
The search for all imported files.

`Search.Explored` is what holds of a registry all along: its files are as they were loaded, each
can be reached from the root, and the imports of all but the waiting ones are registered. A step
keeps it, so it holds when nothing waits any more. Every visit takes one file from the queue, and
what it adds to the queue is also new in the registry, which holds no more files than the tree has
entries. That bounds the number of visits.
-/

namespace SolidityFlattener

namespace Search

variable {site : Site} {extractor : Source.Extractor} {weight : Weight} {root p q : Path}
  {r : Registry} {n : Node} {waiting targets : List Path} {depth : Int} {s s' : Search}
  {rounds : ℕ}

/-! ### What a search keeps -/

/-- A registry in which the imports of all files are followed but for those of the waiting ones. -/
structure Explored (site : Site) (extractor : Source.Extractor) (root : Path) (waiting : List Path)
    (r : Registry) : Prop where
  rooted : root ∈ r.paths
  loaded : ∀ n ∈ r.nodes, site.Loaded extractor n
  reached : ∀ p ∈ r.paths, Relation.ReflTransGen (site.ImportsFile extractor) root p
  queued : ∀ p ∈ waiting, p ∈ r.paths
  followed : ∀ n ∈ r.nodes, n.path ∉ waiting → ∀ q ∈ n.imports, q ∈ r.paths

namespace Explored

theorem start (h : loadNode site extractor root 0 = .ok n) :
    Explored site extractor root [root] (Registry.empty.add n) := by
  have hpath := Site.loadNode_path h
  have hpaths : (Registry.empty.add n).paths = [root] := by simp [Registry.paths, hpath]
  refine ⟨by simp [hpaths], ?_, ?_, by simp [hpaths], ?_⟩
  · intro m hm
    obtain rfl : m = n := by simpa using hm
    exact Site.loaded_of_loadNode h
  · intro p hp
    obtain rfl : p = root := by simpa [hpaths] using hp
    exact .refl
  · intro m hm hnot
    obtain rfl : m = n := by simpa using hm
    simp [hpath] at hnot

theorem raiseDepth (h : Explored site extractor root waiting r) (p : Path) (depth : Int) :
    Explored site extractor root waiting (r.modify p (·.raiseDepth depth)) := by
  refine ⟨by simpa using h.rooted, ?_, by simpa using h.reached, by simpa using h.queued, ?_⟩
  · intro n hn
    rcases Registry.mem_nodes_modify_raiseDepth hn with hn | ⟨m, hm, rfl⟩
    · exact h.loaded n hn
    · exact (h.loaded m hm).raiseDepth depth
  · intro n hn
    rw [Registry.paths_modify]
    rcases Registry.mem_nodes_modify_raiseDepth hn with hn | ⟨m, hm, rfl⟩
    · exact h.followed n hn
    · exact h.followed m hm

theorem push (h : Explored site extractor root waiting r) (hnew : n.path ∉ r.paths)
    (hloaded : site.Loaded extractor n)
    (hreached : Relation.ReflTransGen (site.ImportsFile extractor) root n.path) :
    Explored site extractor root (waiting ++ [n.path]) (r.push n hnew) := by
  refine ⟨?_, ?_, ?_, ?_, ?_⟩
  · simp [h.rooted]
  · intro m hm
    rcases List.mem_append.1 hm with hm | hm
    · exact h.loaded m hm
    · rwa [List.mem_singleton.1 hm]
  · intro p hp
    rw [Registry.paths_push, List.mem_append] at hp
    rcases hp with hp | hp
    · exact h.reached p hp
    · rwa [List.mem_singleton.1 hp]
  · intro p hp
    rw [Registry.paths_push, List.mem_append]
    exact (List.mem_append.1 hp).imp_left (h.queued p)
  · intro m hm hnot q hq
    rw [List.mem_append, not_or] at hnot
    rw [Registry.paths_push, List.mem_append]
    rcases List.mem_append.1 hm with hm | hm
    · exact .inl (h.followed m hm hnot.1 q hq)
    · simp [List.mem_singleton.1 hm] at hnot

/-- A file whose imports are all registered waits no more. -/
theorem settle (h : Explored site extractor root (p :: waiting) r)
    (hp : ∀ n ∈ r.nodes, n.path = p → ∀ q ∈ n.imports, q ∈ r.paths) :
    Explored site extractor root waiting r where
  rooted := h.rooted
  loaded := h.loaded
  reached := h.reached
  queued := fun q hq => h.queued q (List.mem_cons_of_mem _ hq)
  followed := by
    intro n hn hnot q hq
    by_cases hpath : n.path = p
    · exact hp n hn hpath q hq
    · exact h.followed n hn (by simp [hpath, hnot]) q hq

/-- Once nothing waits, all imports are registered. -/
theorem closed (h : Explored site extractor root [] r) : r.Closed .imports := by
  intro n hn q hq
  exact h.followed n hn (by simp) q hq

/-- Where all imports are registered, what can be reached is registered and is reached along the
noted imports. -/
theorem requires_of_reached (h : Explored site extractor root waiting r)
    (hclosed : r.Closed .imports)
    (hreach : Relation.ReflTransGen (site.ImportsFile extractor) root p) :
    p ∈ r.paths ∧ Relation.ReflTransGen (r.Requires .imports) root p := by
  induction hreach with
  | refl => exact ⟨h.rooted, .refl⟩
  | @tail p q _ hedge ih =>
      obtain ⟨hp, hway⟩ := ih
      obtain ⟨n, hn, rfl⟩ := Registry.mem_paths.1 hp
      -- a file that imports itself does not note it, but this leads nowhere new
      by_cases hself : q = n.path
      · rw [hself]
        exact ⟨hp, hway⟩
      · have hq : q ∈ n.imports := (h.loaded n hn).mem_imports_iff.2 ⟨hself, hedge⟩
        exact ⟨hclosed n hn q hq, hway.tail ⟨n, hn, rfl, hq⟩⟩

/-- Once nothing waits, the registered files are those that can be reached. -/
theorem mem_paths_iff (h : Explored site extractor root [] r) :
    p ∈ r.paths ↔ Relation.ReflTransGen (site.ImportsFile extractor) root p :=
  ⟨h.reached p, fun hreach => (h.requires_of_reached h.closed hreach).1⟩

end Explored

/-- A search has gone on: the same paths are new in the registry and in the queue. -/
def Grows (s s' : Search) : Prop :=
  ∃ new, s'.registry.paths = s.registry.paths ++ new ∧ s'.queue = s.queue ++ new

theorem Grows.refl (s : Search) : s.Grows s := ⟨[], by simp, by simp⟩

theorem Grows.trans {s₁ s₂ s₃ : Search} (h : s₁.Grows s₂) (h' : s₂.Grows s₃) : s₁.Grows s₃ := by
  obtain ⟨new, hpaths, hqueue⟩ := h
  obtain ⟨more, hpaths', hqueue'⟩ := h'
  exact ⟨new ++ more, by rw [hpaths', hpaths, List.append_assoc],
    by rw [hqueue', hqueue, List.append_assoc]⟩

theorem Grows.mem_paths (h : s.Grows s') (hp : p ∈ s.registry.paths) : p ∈ s'.registry.paths := by
  obtain ⟨new, hpaths, -⟩ := h
  rw [hpaths]
  exact List.mem_append_left _ hp

/-! ### One visit -/

/-- What following one import can do: raise the depth of a registered file, or load a new one. -/
theorem follow_eq_ok_iff :
    (follow site extractor weight depth s q).outcome = .ok s' ↔
      q ∈ s.registry.paths ∧
          s' = ⟨s.registry.modify q (·.raiseDepth (depth + 1)), s.queue⟩ ∨
        q ∉ s.registry.paths ∧ ∃ child, loadNode site extractor q (depth + 1) = .ok child ∧
          s' = ⟨s.registry.add child, s.queue ++ [child.path]⟩ := by
  unfold follow
  rw [Registry.raiseDepth?_eq]
  by_cases hq : q ∈ s.registry.paths
  · simp only [hq, if_true, Trace.outcome_pure, Except.ok.injEq, true_and, not_true_eq_false,
      false_and, or_false]
    exact eq_comm
  · simp only [hq, if_false, Trace.outcome_bind_eq_ok_iff, Trace.outcome_tell,
      Trace.outcome_ofExcept, Trace.outcome_pure, Except.ok.injEq]
    simp [eq_comm]

theorem Explored.follow (h : Explored site extractor root (p :: s.queue) s.registry)
    (hreached : Relation.ReflTransGen (site.ImportsFile extractor) root q)
    (hrun : (follow site extractor weight depth s q).outcome = .ok s') :
    Explored site extractor root (p :: s'.queue) s'.registry ∧ s.Grows s' ∧
      q ∈ s'.registry.paths := by
  rcases follow_eq_ok_iff.1 hrun with ⟨hq, rfl⟩ | ⟨hq, child, hload, rfl⟩
  · exact ⟨h.raiseDepth q (depth + 1), ⟨[], by simp, by simp⟩, by simpa using hq⟩
  · have hpath := Site.loadNode_path hload
    have hnew : child.path ∉ s.registry.paths := by rwa [hpath]
    rw [Registry.add_eq_push hnew]
    refine ⟨?_, ⟨[child.path], by simp, rfl⟩, by simp [hpath]⟩
    exact h.push hnew (Site.loaded_of_loadNode hload) (by rwa [hpath])

theorem Explored.followAll (h : Explored site extractor root (p :: s.queue) s.registry)
    (hreached : ∀ q ∈ targets, Relation.ReflTransGen (site.ImportsFile extractor) root q)
    (hrun : (targets.foldlM (Search.follow site extractor weight depth) s).outcome = .ok s') :
    Explored site extractor root (p :: s'.queue) s'.registry ∧ s.Grows s' ∧
      ∀ q ∈ targets, q ∈ s'.registry.paths := by
  induction targets generalizing s with
  | nil =>
      obtain rfl : s = s' := Except.ok.inj hrun
      exact ⟨h, .refl s, by simp⟩
  | cons target targets ih =>
      rw [List.foldlM_cons, Trace.outcome_bind_eq_ok_iff] at hrun
      obtain ⟨next, hnext, hrest⟩ := hrun
      obtain ⟨hexplored, hgrows, htarget⟩ := h.follow (hreached target List.mem_cons_self) hnext
      obtain ⟨hexplored', hgrows', htargets⟩ :=
        ih hexplored (fun q hq => hreached q (List.mem_cons_of_mem _ hq)) hrest
      refine ⟨hexplored', hgrows.trans hgrows', ?_⟩
      intro q hq
      rcases List.mem_cons.1 hq with rfl | hq
      · exact hgrows'.mem_paths htarget
      · exact htargets q hq

theorem visit_eq_ok_iff (hget : s.registry.get? p = some n) :
    (visit site extractor weight s p).outcome = .ok s' ↔
      (n.imports.foldlM (follow site extractor weight n.depth) s).outcome = .ok s' := by
  unfold visit
  rw [hget, Trace.outcome_bind_eq_ok_iff]
  constructor
  · rintro ⟨-, -, hrun⟩
    exact hrun
  · intro hrun
    exact ⟨(), rfl, hrun⟩

/-- A visit to a file with one import that is new loads it and queues it. -/
theorem visit_of_new {child : Node} (hget : s.registry.get? p = some n) (himports : n.imports = [q])
    (hnew : q ∉ s.registry.paths) (hload : loadNode site extractor q (n.depth + 1) = .ok child) :
    (visit site extractor weight s p).outcome =
      .ok ⟨s.registry.add child, s.queue ++ [child.path]⟩ := by
  rw [visit_eq_ok_iff hget, himports, List.foldlM_cons]
  exact Trace.outcome_bind_eq_ok_iff.2
    ⟨_, follow_eq_ok_iff.2 (.inr ⟨hnew, child, hload, rfl⟩), rfl⟩

/-- A visit to a file with one import that is registered raises its depth. -/
theorem visit_of_known (hget : s.registry.get? p = some n) (himports : n.imports = [q])
    (hknown : q ∈ s.registry.paths) :
    (visit site extractor weight s p).outcome =
      .ok ⟨s.registry.modify q (·.raiseDepth (n.depth + 1)), s.queue⟩ := by
  rw [visit_eq_ok_iff hget, himports, List.foldlM_cons]
  exact Trace.outcome_bind_eq_ok_iff.2 ⟨_, follow_eq_ok_iff.2 (.inl ⟨hknown, rfl⟩), rfl⟩

/-- A visit follows all imports of the file that it visits. -/
theorem Explored.visit (h : Explored site extractor root (p :: s.queue) s.registry)
    (hrun : (visit site extractor weight s p).outcome = .ok s') :
    Explored site extractor root s'.queue s'.registry ∧ s.Grows s' := by
  obtain ⟨n, hn, rfl⟩ := Registry.mem_paths.1 (h.queued p List.mem_cons_self)
  rw [visit_eq_ok_iff (Registry.get?_path hn)] at hrun
  have hedge : ∀ q ∈ n.imports, site.ImportsFile extractor n.path q := fun q hq =>
    ((h.loaded n hn).mem_imports_iff.1 hq).2
  have hreached := h.reached n.path (Registry.path_mem_paths hn)
  obtain ⟨hexplored, hgrows, htargets⟩ :=
    h.followAll (fun q hq => hreached.tail (hedge q hq)) hrun
  refine ⟨hexplored.settle ?_, hgrows⟩
  -- the visited file may have been raised meanwhile, but its imports are what they were
  intro m hm hpath q hq
  have hq := (hexplored.loaded m hm).mem_imports_iff.1 hq
  rw [hpath] at hq
  exact htargets q ((h.loaded n hn).mem_imports_iff.2 hq)

/-- A visit that succeeds leaves the rest to the rounds that are left. -/
theorem outcome_run_cons {rest : List Path}
    (hvisit : (visit site extractor weight ⟨r, rest⟩ p).outcome = .ok s') :
    (run site extractor weight (rounds + 1) ⟨r, p :: rest⟩).outcome =
      (run site extractor weight rounds s').outcome := by
  change (visit site extractor weight ⟨r, rest⟩ p >>= run site extractor weight rounds).outcome = _
  rw [Trace.bind_of_ok hvisit]

end Search

end SolidityFlattener
