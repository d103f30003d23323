import SolidityFlattener.Proofs.Graph.Heights
import SolidityFlattener.Proofs.Imports.DiscoveryOrder

/-!
How deep files are found.

A visit raises the depth of each import to one below the visited file, at the depth that this file
has then. A file that is raised after its visit does not hand this on. So two depths of a file are
told apart: the one at its visit, which only the files before it decide, and the final one, to which
all its importers contribute with their depth at their own visits. `depthsAfter` computes depths
from the visited paths alone, and every state of a search agrees with it.
-/

namespace SolidityFlattener

/-! ### Depths computed from visits -/

section Depths

variable {next : Path → List Path} {visited : List Path} {a p q : Path}

/-- Depths once the imports of a path are raised to below it. -/
def raisedBelow (next : Path → List Path) (depth : Path → Int) (a : Path) : Path → Int :=
  fun p => if p ∈ next a then max (depth p) (depth a + 1) else depth p

/-- The depths after visits to some paths, one after another. They start from zero. -/
def depthsAfter (next : Path → List Path) (visited : List Path) : Path → Int :=
  visited.foldl (raisedBelow next) fun _ => 0

theorem depthsAfter_concat (next : Path → List Path) (visited : List Path) (a : Path) :
    depthsAfter next (visited ++ [a]) = raisedBelow next (depthsAfter next visited) a := by
  rw [depthsAfter, List.foldl_append]
  rfl

/-- The depths to which visits raise a path: one more than that of each visited path that leads to
it, as it was when its turn came. -/
def raises (next : Path → List Path) (visited : List Path) (p : Path) : Set Int :=
  {k | ∃ i a, visited[i]? = some a ∧ p ∈ next a ∧ k = depthsAfter next (visited.take i) a + 1}

theorem raises_concat (next : Path → List Path) (visited : List Path) (a p : Path) :
    raises next (visited ++ [a]) p =
      {k | p ∈ next a ∧ k = depthsAfter next visited a + 1} ∪ raises next visited p := by
  ext k
  constructor
  · rintro ⟨i, b, hb, hp, rfl⟩
    rcases lt_trichotomy i visited.length with hi | rfl | hi
    · rw [List.getElem?_append_left hi] at hb
      rw [List.take_append_of_le_length hi.le]
      exact .inr ⟨i, b, hb, hp, rfl⟩
    · obtain rfl : a = b := by simpa using hb
      rw [List.take_left]
      exact .inl ⟨hp, rfl⟩
    · rw [List.getElem?_eq_none (by simp; omega)] at hb
      cases hb
  · rintro (⟨hp, rfl⟩ | ⟨i, b, hb, hp, rfl⟩)
    · exact ⟨visited.length, a, by simp, hp, by rw [List.take_left]⟩
    · obtain ⟨hi, -⟩ := List.getElem?_eq_some_iff.1 hb
      exact ⟨i, b, by rwa [List.getElem?_append_left hi], hp,
        by rw [List.take_append_of_le_length hi.le]⟩

/-- The depth of a path is the greatest that it is raised to, or zero. -/
theorem isGreatest_depthsAfter (next : Path → List Path) (visited : List Path) (p : Path) :
    IsGreatest (insert 0 (raises next visited p)) (depthsAfter next visited p) := by
  induction visited using List.reverseRecOn with
  | nil =>
      have hnone : raises next [] p = ∅ := by
        ext k
        simp [raises]
      rw [hnone]
      simp [depthsAfter]
  | append_singleton visited a ih =>
      rw [depthsAfter_concat, raisedBelow, raises_concat]
      split_ifs with hp
      · have hset : insert 0 ({k | p ∈ next a ∧ k = depthsAfter next visited a + 1} ∪
            raises next visited p) =
              insert (depthsAfter next visited a + 1) (insert 0 (raises next visited p)) := by
          ext k
          simp only [hp, true_and, Set.mem_insert_iff, Set.mem_union, Set.mem_ofPred_eq]
          tauto
        rw [hset, max_comm]
        exact ih.insert _
      · simpa [hp] using ih

theorem depthsAfter_nonneg (next : Path → List Path) (visited : List Path) (p : Path) :
    0 ≤ depthsAfter next visited p :=
  (isGreatest_depthsAfter next visited p).2 (Set.mem_insert _ _)

/-- What no visited path leads to is not raised. -/
theorem depthsAfter_eq_zero (h : ∀ a ∈ visited, p ∉ next a) : depthsAfter next visited p = 0 := by
  rcases (isGreatest_depthsAfter next visited p).1 with hzero | ⟨i, a, ha, hp, -⟩
  · exact hzero
  · exact absurd hp (h a (List.mem_of_getElem? ha))

end Depths

/-! ### The depths of a search -/

namespace Registry

variable {r r' r'' : Registry} {n : Node} {p : Path} {depth : Int} {f : Path → Int}

/-- The files of a registry have the depths that are given by path. -/
def HasDepths (r : Registry) (f : Path → Int) : Prop := ∀ n ∈ r.nodes, n.depth = f n.path

theorem HasDepths.raiseDepth (h : r.HasDepths f) (p : Path) (depth : Int) :
    (r.modify p (·.raiseDepth depth)).HasDepths
      fun q => if q = p then max (f q) depth else f q := by
  intro n hn
  obtain ⟨m, hm, rfl⟩ := List.mem_map.1 hn
  dsimp only
  split_ifs with hp
  · show max m.depth depth = max (f m.path) depth
    rw [h m hm]
  · exact h m hm

theorem HasDepths.push (h : r.HasDepths f) (hnew : n.path ∉ r.paths)
    (hdepth : f n.path ≤ n.depth) :
    (r.push n hnew).HasDepths fun q => if q = n.path then max (f q) n.depth else f q := by
  intro m hm
  dsimp only
  rcases List.mem_append.1 hm with hm | hm
  · have hne : m.path ≠ n.path := by
      intro heq
      exact hnew (heq ▸ path_mem_paths hm)
    rw [if_neg hne]
    exact h m hm
  · rw [List.mem_singleton.1 hm, if_pos rfl, max_eq_right hdepth]

/-- The files of one registry are in another as well, none of them at a smaller depth. -/
def Deepens (r r' : Registry) : Prop :=
  ∀ n ∈ r.nodes, ∃ m ∈ r'.nodes, m.path = n.path ∧ n.depth ≤ m.depth

theorem Deepens.refl (r : Registry) : r.Deepens r := fun n hn => ⟨n, hn, rfl, le_rfl⟩

theorem Deepens.trans (h : r.Deepens r') (h' : r'.Deepens r'') : r.Deepens r'' := by
  intro n hn
  obtain ⟨m, hm, hpath, hdepth⟩ := h n hn
  obtain ⟨k, hk, hpath', hdepth'⟩ := h' m hm
  exact ⟨k, hk, hpath'.trans hpath, hdepth.trans hdepth'⟩

theorem deepens_raiseDepth (r : Registry) (p : Path) (depth : Int) :
    r.Deepens (r.modify p (·.raiseDepth depth)) := by
  intro n hn
  refine ⟨_, List.mem_map_of_mem hn, ?_⟩
  dsimp only
  split_ifs
  · exact ⟨rfl, le_max_left _ _⟩
  · exact ⟨rfl, le_rfl⟩

theorem deepens_push (hnew : n.path ∉ r.paths) : r.Deepens (r.push n hnew) :=
  fun m hm => ⟨m, List.mem_append_left _ hm, rfl, le_rfl⟩

theorem deepens_linkInheritance (r : Registry) : r.Deepens r.linkInheritance :=
  fun n hn => ⟨r.linkNode n, mem_nodes_linkInheritance.2 ⟨n, hn, rfl⟩, rfl, le_rfl⟩

end Registry

namespace Search

variable {site : Site} {extractor : Source.Extractor} {weight : Weight} {root p q : Path}
  {visited targets : List Path} {depth : Int} {s s' t : Search} {f : Path → Int}

/-- Following an import lowers no depth. -/
theorem deepens_follow (h : (follow site extractor weight depth s q).outcome = .ok s') :
    s.registry.Deepens s'.registry := by
  rcases follow_eq_ok_iff.1 h with ⟨-, rfl⟩ | ⟨hq, child, hload, rfl⟩
  · exact Registry.deepens_raiseDepth _ _ _
  · have hnew : child.path ∉ s.registry.paths := by rwa [Site.loadNode_path hload]
    show s.registry.Deepens (s.registry.add child)
    rw [Registry.add_eq_push hnew]
    exact Registry.deepens_push hnew

theorem deepens_followAll
    (h : (targets.foldlM (follow site extractor weight depth) s).outcome = .ok s') :
    s.registry.Deepens s'.registry := by
  induction targets generalizing s with
  | nil =>
      obtain rfl : s = s' := Except.ok.inj h
      exact .refl _
  | cons target targets ih =>
      rw [List.foldlM_cons, Trace.outcome_bind_eq_ok_iff] at h
      obtain ⟨next, hnext, hrest⟩ := h
      exact (deepens_follow hnext).trans (ih hrest)

theorem deepens_visits (h : Visits site extractor weight s t) :
    s.registry.Deepens t.registry := by
  obtain ⟨path, rest, -, hvisit⟩ := h
  cases hget : s.registry.get? path with
  | none =>
      unfold visit at hvisit
      simp only [hget, Trace.outcome_bind_eq_ok_iff, Trace.outcome_pure] at hvisit
      obtain ⟨-, -, hsame⟩ := hvisit
      obtain rfl := Except.ok.inj hsame
      exact .refl _
  | some n =>
      have hfollowed := (visit_eq_ok_iff (s := { s with queue := rest }) hget).1 hvisit
      exact deepens_followAll (s := { s with queue := rest }) hfollowed

/-- So no depth is lowered in the course of a search. -/
theorem deepens_turns (h : Relation.ReflTransGen (Visits site extractor weight) s t) :
    s.registry.Deepens t.registry := by
  induction h with
  | refl => exact .refl _
  | tail _ hvisits ih => exact ih.trans (deepens_visits hvisits)

theorem hasDepths_follow (h : s.registry.HasDepths f)
    (hnew : q ∉ s.registry.paths → f q ≤ depth + 1)
    (hrun : (follow site extractor weight depth s q).outcome = .ok s') :
    s'.registry.HasDepths fun p => if p = q then max (f p) (depth + 1) else f p := by
  rcases follow_eq_ok_iff.1 hrun with ⟨-, rfl⟩ | ⟨hq, child, hload, rfl⟩
  · exact h.raiseDepth q (depth + 1)
  · obtain rfl := Site.loadNode_path hload
    have hdepth : child.depth = depth + 1 := by
      obtain ⟨_, _, -, -, heq⟩ := Site.loadNode_eq_ok_iff.1 hload
      rw [heq]
    show (s.registry.add child).HasDepths _
    rw [Registry.add_eq_push hq, ← hdepth]
    exact h.push hq (hdepth ▸ hnew hq)

/-- Following some imports raises each of them, and nothing else. -/
theorem hasDepths_followAll (h : s.registry.HasDepths f)
    (hnew : ∀ q ∉ s.registry.paths, f q ≤ depth + 1)
    (hrun : (targets.foldlM (follow site extractor weight depth) s).outcome = .ok s') :
    s'.registry.HasDepths fun p => if p ∈ targets then max (f p) (depth + 1) else f p := by
  induction targets generalizing s f with
  | nil =>
      obtain rfl : s = s' := Except.ok.inj hrun
      simpa using h
  | cons target targets ih =>
      rw [List.foldlM_cons, Trace.outcome_bind_eq_ok_iff] at hrun
      obtain ⟨next, hnext, hrest⟩ := hrun
      have hregistered : ∀ q, q ∈ s.registry.paths ∨ q = target → q ∈ next.registry.paths := by
        rintro q hq
        rcases follow_eq_ok_iff.1 hnext with ⟨htarget, rfl⟩ | ⟨htarget, child, hload, rfl⟩
        · rw [Registry.paths_modify]
          exact hq.elim id fun heq => heq ▸ htarget
        · have hpath := Site.loadNode_path hload
          simp only [Registry.add_eq_push (show child.path ∉ _ by rwa [hpath]),
            Registry.paths_push, List.mem_append, List.mem_singleton, hpath]
          exact hq
      have hlater := ih (hasDepths_follow h (hnew target) hnext) ?_ hrest
      · intro n hn
        rw [hlater n hn]
        grind
      · intro q hq
        have hother : q ≠ target := fun heq => hq (hregistered q (.inr heq))
        rw [if_neg hother]
        exact hnew q fun hmem => hq (hregistered q (.inl hmem))

/-- A visit in an ordered search raises the depths as computed. -/
theorem Ordered.hasDepths_visit (h : Ordered site extractor root visited s) {rest : List Path}
    (hexplored : Explored site extractor root s.queue s.registry) (hqueue : s.queue = p :: rest)
    (hdepths : s.registry.HasDepths (depthsAfter (site.importsOf extractor) visited))
    (hrun : (Search.visit site extractor weight { s with queue := rest } p).outcome = .ok s') :
    s'.registry.HasDepths (depthsAfter (site.importsOf extractor) (visited ++ [p])) := by
  obtain ⟨n, hn, rfl⟩ := Registry.mem_paths.1 (hexplored.queued p (by simp [hqueue]))
  have hfollowed := (visit_eq_ok_iff (s := { s with queue := rest }) (Registry.get?_path hn)).1 hrun
  rw [(hexplored.loaded n hn).imports_eq, hdepths n hn] at hfollowed
  rw [depthsAfter_concat]
  refine hasDepths_followAll (s := { s with queue := rest }) hdepths ?_ hfollowed
  intro q hq
  -- what is not registered is an import of no visited file, so its depth is still zero
  have hzero : depthsAfter (site.importsOf extractor) visited q = 0 := by
    refine depthsAfter_eq_zero fun a ha himports => hq ?_
    show q ∈ s.registry.paths
    rw [h.met]
    exact mem_metFrom.2 (.inr ⟨a, ha, himports⟩)
  have hnonneg := depthsAfter_nonneg (site.importsOf extractor) visited n.path
  omega

theorem Ordered.hasDepths_turns (h : Ordered site extractor root visited s)
    (hexplored : Explored site extractor root s.queue s.registry)
    (hdepths : s.registry.HasDepths (depthsAfter (site.importsOf extractor) visited))
    (hturns : Relation.ReflTransGen (Visits site extractor weight) s t) :
    ∃ visited', Ordered site extractor root visited' t ∧
      t.registry.HasDepths (depthsAfter (site.importsOf extractor) visited') := by
  induction hturns with
  | refl => exact ⟨visited, h, hdepths⟩
  | @tail t u hturns hvisits ih =>
      obtain ⟨visited', hordered, hdepths⟩ := ih
      obtain ⟨-, hexplored⟩ := h.turns hexplored hturns
      obtain ⟨path, rest, hqueue, hvisit⟩ := hvisits
      exact ⟨visited' ++ [path], hordered.visit hexplored hqueue hvisit,
        hordered.hasDepths_visit hexplored hqueue hdepths hvisit⟩

end Search

/-! ### The depths of a registry -/

namespace Registry

variable {r : Registry} {next : Path → List Path} {root : Path} {n : Node} {d d' : Path → Int}
  {e i : ℕ}

/-- The depths of files at their visits: zero for the root, and for every other file one more than
the greatest among its importers before it. -/
structure IsVisitDepth (r : Registry) (root : Path) (d : Path → Int) : Prop where
  root_eq : d root = 0
  isGreatest : ∀ n ∈ r.nodes, n.path ≠ root →
    IsGreatest {k | ∃ m ∈ r.nodes, n.path ∈ m.imports ∧
      r.paths.idxOf m.path < r.paths.idxOf n.path ∧ k = d m.path + 1} (d n.path)

/-- The depths to which all its importers raise a file, at whatever place they stand. -/
def raisedTo (r : Registry) (d : Path → Int) (p : Path) : Set Int :=
  {k | ∃ m ∈ r.nodes, p ∈ m.imports ∧ k = d m.path + 1}

namespace IsVisitDepth

/-- A proof for all files from what is so of the root and passes on from an importer to a later
file. -/
theorem induction {motive : Path → Prop} (h : r.IsVisitDepth root d) (hroot : motive root)
    (hstep : ∀ n ∈ r.nodes, ∀ m ∈ r.nodes, n.path ∈ m.imports →
      r.paths.idxOf m.path < r.paths.idxOf n.path → d n.path = d m.path + 1 →
        motive m.path → motive n.path) (hn : n ∈ r.nodes) : motive n.path := by
  induction hi : r.paths.idxOf n.path using Nat.strong_induction_on generalizing n with
  | _ i ih =>
      by_cases hpath : n.path = root
      · rwa [hpath]
      · obtain ⟨m, hm, himports, hbefore, heq⟩ := (h.isGreatest n hn hpath).1
        exact hstep n hn m hm himports hbefore heq (ih _ (hi ▸ hbefore) hm rfl)

theorem nonneg (h : r.IsVisitDepth root d) (hn : n ∈ r.nodes) : 0 ≤ d n.path := by
  refine h.induction (motive := fun p => 0 ≤ d p) h.root_eq.ge ?_ hn
  intro n _ m _ _ _ heq ih
  omega

/-- A file is no deeper at its visit than it has files before it. -/
theorem le_idxOf (h : r.IsVisitDepth root d) (hn : n ∈ r.nodes) :
    d n.path ≤ r.paths.idxOf n.path := by
  refine h.induction (motive := fun p => d p ≤ r.paths.idxOf p) ?_ ?_ hn
  · rw [h.root_eq]
    exact Int.natCast_nonneg _
  · intro n _ m _ _ hbefore heq ih
    omega

/-- Imports lead from the root to a file in as many steps as it is deep at its visit. -/
theorem exists_leadsIn (h : r.IsVisitDepth root d) (hn : n ∈ r.nodes) :
    ∃ steps : ℕ, d n.path = steps ∧ LeadsIn (r.Requires .imports) root steps n.path := by
  refine h.induction (motive := fun p =>
    ∃ steps : ℕ, d p = steps ∧ LeadsIn (r.Requires .imports) root steps p) ?_ ?_ hn
  · exact ⟨0, h.root_eq, .start⟩
  · rintro n _ m hm himports _ heq ⟨steps, hsteps, hway⟩
    exact ⟨steps + 1, by omega, hway.step ⟨m, hm, rfl, himports⟩⟩

/-- There is only one way to number the files so. -/
theorem unique (h : r.IsVisitDepth root d) (h' : r.IsVisitDepth root d') (hn : n ∈ r.nodes) :
    d n.path = d' n.path := by
  induction hi : r.paths.idxOf n.path using Nat.strong_induction_on generalizing n with
  | _ i ih =>
      by_cases hpath : n.path = root
      · rw [hpath, h.root_eq, h'.root_eq]
      · -- the importers before the file are numbered alike, so both numbers are of one set
        have hset : {k | ∃ m ∈ r.nodes, n.path ∈ m.imports ∧
            r.paths.idxOf m.path < r.paths.idxOf n.path ∧ k = d m.path + 1} =
            {k | ∃ m ∈ r.nodes, n.path ∈ m.imports ∧
              r.paths.idxOf m.path < r.paths.idxOf n.path ∧ k = d' m.path + 1} := by
          ext k
          refine exists_congr fun m => and_congr_right fun hm => and_congr_right fun _ =>
            and_congr_right fun hbefore => ?_
          rw [ih _ (hi ▸ hbefore) hm rfl]
        have hgreatest := h.isGreatest n hn hpath
        rw [hset] at hgreatest
        exact hgreatest.unique (h'.isGreatest n hn hpath)

end IsVisitDepth

/-- The depth of a path when its turn comes, if the files of a registry are visited in order. -/
def visitDepth (r : Registry) (next : Path → List Path) (p : Path) : Int :=
  depthsAfter next (r.paths.take (r.paths.idxOf p)) p

/-- The files before an index raise a path to below their depths at their visits. -/
theorem raises_take (hnext : ∀ n ∈ r.nodes, n.imports = next n.path) (i : ℕ) (p : Path) :
    raises next (r.paths.take i) p =
      {k | ∃ m ∈ r.nodes, p ∈ m.imports ∧ r.paths.idxOf m.path < i ∧
        k = r.visitDepth next m.path + 1} := by
  ext k
  constructor
  · rintro ⟨j, a, ha, hp, rfl⟩
    rw [List.getElem?_take] at ha
    split_ifs at ha with hj
    obtain ⟨m, hm, rfl⟩ := mem_paths.1 (List.mem_of_getElem? ha)
    have hidx : r.paths.idxOf m.path = j := by
      obtain ⟨hlength, heq⟩ := List.getElem?_eq_some_iff.1 ha
      rw [← heq]
      exact List.Nodup.idxOf_getElem r.nodup_paths j hlength
    refine ⟨m, hm, by rwa [hnext m hm], by rwa [hidx], ?_⟩
    rw [visitDepth, hidx, List.take_take, min_eq_left hj.le]
  · rintro ⟨m, hm, hp, hbefore, rfl⟩
    refine ⟨r.paths.idxOf m.path, m.path, ?_, by rwa [← hnext m hm], ?_⟩
    · rw [List.getElem?_take, if_pos hbefore]
      exact List.getElem?_idxOf (path_mem_paths hm)
    · rw [visitDepth, List.take_take, min_eq_left hbefore.le]

/-- Where there is something positive, the zero is never the greatest. -/
theorem isGreatest_of_insert_zero {S : Set Int} {x : Int} (h : IsGreatest (insert 0 S) x)
    (hpos : ∀ k ∈ S, 0 < k) (hne : S.Nonempty) : IsGreatest S x := by
  obtain ⟨k, hk⟩ := hne
  refine ⟨?_, fun y hy => h.2 (Set.mem_insert_of_mem _ hy)⟩
  rcases h.1 with rfl | hx
  · exact absurd (h.2 (Set.mem_insert_of_mem _ hk)) (hpos k hk).not_ge
  · exact hx

/-- In breadth-first order every file but the root has an importer before it, so the computed depths
are those at the visits. -/
theorem isVisitDepth_visitDepth (h : r.BreadthFirst root)
    (hreach : ∀ p ∈ r.paths, Relation.ReflTransGen (r.Requires .imports) root p)
    (hnext : ∀ n ∈ r.nodes, n.imports = next n.path) :
    r.IsVisitDepth root (r.visitDepth next) where
  root_eq := by
    rw [visitDepth, h.idxOf_root]
    rfl
  isGreatest := by
    intro n hn hroot
    have hgreatest :=
      isGreatest_depthsAfter next (r.paths.take (r.paths.idxOf n.path)) n.path
    rw [raises_take hnext] at hgreatest
    refine isGreatest_of_insert_zero hgreatest ?_ ?_
    · rintro k ⟨m, -, -, -, rfl⟩
      have hnonneg : 0 ≤ r.visitDepth next m.path := depthsAfter_nonneg _ _ _
      omega
    · have hp := path_mem_paths hn
      obtain ⟨m, hm, himports, hbefore⟩ := h.exists_importer_before hp hroot (hreach _ hp)
      exact ⟨_, m, hm, himports, hbefore, rfl⟩

namespace IsVisitDepth

/-- Once all files are visited, a file is as deep as it was at its visit or as some importer has
raised it to since. -/
theorem isGreatest_depth (h : r.IsVisitDepth root d)
    (hd : ∀ n ∈ r.nodes, d n.path = r.visitDepth next n.path)
    (hnext : ∀ n ∈ r.nodes, n.imports = next n.path)
    (hdepths : r.HasDepths (depthsAfter next r.paths)) (hn : n ∈ r.nodes) :
    IsGreatest (insert (d n.path) (r.raisedTo d n.path)) n.depth := by
  have hraised : raises next r.paths n.path = r.raisedTo d n.path := by
    have htake := raises_take hnext r.paths.length n.path
    rw [List.take_length] at htake
    rw [htake]
    ext k
    refine exists_congr fun m => and_congr_right fun hm => and_congr_right fun _ => ?_
    have hlength : r.paths.idxOf m.path < r.paths.length :=
      List.idxOf_lt_length_iff.2 (path_mem_paths hm)
    simp only [hlength, true_and, hd m hm]
  have hgreatest := isGreatest_depthsAfter next r.paths n.path
  rw [hraised, ← hdepths n hn] at hgreatest
  by_cases hroot : n.path = root
  · rw [hroot, h.root_eq, ← hroot]
    exact hgreatest
  · obtain ⟨⟨m, hm, himports, -, heq⟩, -⟩ := h.isGreatest n hn hroot
    have hmem : d n.path ∈ r.raisedTo d n.path := ⟨m, hm, himports, heq⟩
    rw [Set.insert_eq_of_mem hmem]
    refine isGreatest_of_insert_zero hgreatest ?_ ⟨_, hmem⟩
    rintro k ⟨m, hm, -, rfl⟩
    have hnonneg := h.nonneg hm
    omega

end IsVisitDepth

end Registry

/-! ### Discovery -/

section Discovery

variable {site : Site} {extractor : Source.Extractor} {weight : Weight} {root path : Path}
  {r : Registry}

/-- A registry that is found has the imports of its site, and the depths computed from them by
visits to all its files. -/
theorem hasDepths_of_discover (hsound : site.Sound)
    (h : (discover site extractor weight root).outcome = .ok (path, r)) :
    (∀ n ∈ r.nodes, n.imports = site.importsOf extractor n.path) ∧
      r.HasDepths (depthsAfter (site.importsOf extractor) r.paths) := by
  obtain ⟨node, last, hnode, hturns, hqueue, rfl⟩ := exists_turns_of_discover hsound h
  have hordered : Search.Ordered site extractor path [] ⟨Registry.empty.add node, [path]⟩ :=
    .start hnode
  have hstart :
      (Registry.empty.add node).HasDepths (depthsAfter (site.importsOf extractor) []) := by
    intro n hn
    obtain rfl : n = node := by simpa using hn
    obtain ⟨_, _, -, -, heq⟩ := Site.loadNode_eq_ok_iff.1 hnode
    rw [heq]
    rfl
  obtain ⟨-, hexplored⟩ := hordered.turns (.start hnode) hturns
  obtain ⟨visited, hend, hdepths⟩ := hordered.hasDepths_turns (.start hnode) hstart hturns
  obtain rfl : last.registry.paths = visited := by simpa [hqueue] using hend.waiting
  constructor
  · intro n hn
    obtain ⟨m, hm, rfl⟩ := Registry.mem_nodes_linkInheritance.1 hn
    exact (hexplored.loaded m hm).imports_eq
  · intro n hn
    obtain ⟨m, hm, rfl⟩ := Registry.mem_nodes_linkInheritance.1 hn
    rw [Registry.paths_linkInheritance]
    exact hdepths m hm

end Discovery

/-- How deep discovery on a sound site finds its files. Let the depth at its visit be zero for the
root, and for another file one more than the greatest such depth among its importers before it: this
numbers the files in exactly one way. Then the depth of a file in the end is the greater of its own
number and of what follows on the numbers of all its importers, before it or behind it. No state on
the way has a file deeper than a later one or than the registry found; no file is less deep than it
is far from the root, nor deeper than there are files. -/
theorem discover_finds_depths (site : Site) (hsound : site.Sound) (extractor : Source.Extractor)
    (weight : Weight) (root path : Path) (r : Registry)
    (h : (discover site extractor weight root).outcome = .ok (path, r)) :
    (∃ d, r.IsVisitDepth path d) ∧
      (∀ d, r.IsVisitDepth path d → ∀ n ∈ r.nodes,
        IsGreatest (insert (d n.path) (r.raisedTo d n.path)) n.depth) ∧
      (∃ node, loadNode site extractor path 0 = .ok node ∧
        ∀ s, Relation.ReflTransGen (Search.Visits site extractor weight)
            ⟨Registry.empty.add node, [path]⟩ s →
          s.registry.Deepens r ∧
            ∀ t, Relation.ReflTransGen (Search.Visits site extractor weight) s t →
              s.registry.Deepens t.registry) ∧
      ∀ n ∈ r.nodes, (∀ e, r.IsDistance path n.path e → (e : Int) ≤ n.depth) ∧
        n.depth ≤ r.size := by
  have horder := breadthFirst_of_discover hsound h
  obtain ⟨hnext, hdepths⟩ := hasDepths_of_discover hsound h
  have hvisit : r.IsVisitDepth path (r.visitDepth (site.importsOf extractor)) :=
    Registry.isVisitDepth_visitDepth horder (fun p hp => reached_of_discover hsound h hp) hnext
  have hgreatest : ∀ d, r.IsVisitDepth path d → ∀ n ∈ r.nodes,
      IsGreatest (insert (d n.path) (r.raisedTo d n.path)) n.depth := by
    intro d hd n hn
    exact hd.isGreatest_depth (fun m hm => hd.unique hvisit hm) hnext hdepths hn
  refine ⟨⟨_, hvisit⟩, hgreatest, ?_, ?_⟩
  · obtain ⟨node, last, hnode, hturns, hqueue, rfl⟩ := exists_turns_of_discover hsound h
    refine ⟨node, hnode, fun s hs => ⟨?_, fun t ht => Search.deepens_turns ht⟩⟩
    exact (Search.deepens_turns (Search.turns_to_last hturns hqueue hs)).trans
      (Registry.deepens_linkInheritance _)
  · intro n hn
    obtain ⟨hmem, hleast⟩ := hgreatest _ hvisit n hn
    constructor
    · intro e he
      obtain ⟨steps, hsteps, hway⟩ := hvisit.exists_leadsIn hn
      have hle : e ≤ steps := he.2 hway
      have hdepth := hleast (Set.mem_insert _ _)
      omega
    · -- every number is at most an index, and a raised depth is one more than a number
      have hnumber : ∀ m ∈ r.nodes, r.visitDepth (site.importsOf extractor) m.path < r.size := by
        intro m hm
        have hidx := hvisit.le_idxOf hm
        have hlt : r.paths.idxOf m.path < r.paths.length :=
          List.idxOf_lt_length_iff.2 (Registry.path_mem_paths hm)
        have hsize : r.paths.length = r.size := List.length_map _
        omega
      rcases hmem with heq | ⟨m, hm, -, heq⟩
      · rw [heq]
        exact (hnumber n hn).le
      · rw [heq]
        exact hnumber m hm

/-- In the web the import back raises the root, and the import across raises a file that was visited
before, which its own import does not notice. -/
theorem discover_web_finds_depths :
    webSite.Sound ∧
      (discover webSite Source.byLines .debug (.ofText "R.sol".toList)).outcome =
        .ok (Path.top "R.sol", webRegistry) ∧
      ∃ d, webRegistry.IsVisitDepth (Path.top "R.sol") d ∧
        (webRegistry.nodes.map fun n => (d n.path, n.depth)) =
          [(0, 3), (1, 2), (1, 1), (2, 2)] ∧
        ∀ n ∈ webRegistry.nodes,
          IsGreatest (insert (d n.path) (webRegistry.raisedTo d n.path)) n.depth := by
  have hfound : (discover webSite Source.byLines .debug (.ofText "R.sol".toList)).outcome =
      .ok (Path.top "R.sol", webRegistry) := discover_web
  obtain ⟨⟨d, hd⟩, hgreatest, -, -⟩ := discover_finds_depths webSite webSite_sound Source.byLines
    .debug (.ofText "R.sol".toList) _ _ hfound
  have hcomputed : webRegistry.IsVisitDepth (Path.top "R.sol")
      (webRegistry.visitDepth webRegistry.importsOf) :=
    Registry.isVisitDepth_visitDepth (breadthFirst_of_discover webSite_sound hfound)
      (fun p hp => reached_of_discover webSite_sound hfound hp)
      fun n hn => (Registry.importsOf_path hn).symm
  refine ⟨webSite_sound, hfound, d, hd, ?_, hgreatest d hd⟩
  calc webRegistry.nodes.map (fun n => (d n.path, n.depth))
      = webRegistry.nodes.map fun n =>
          (webRegistry.visitDepth webRegistry.importsOf n.path, n.depth) :=
        List.map_congr_left fun n hn => by rw [hd.unique hcomputed hn]
    _ = [(0, 3), (1, 2), (1, 1), (2, 2)] := by decide +kernel

end SolidityFlattener
