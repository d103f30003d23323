import SolidityFlattener.Proofs.Graph.Levels
import SolidityFlattener.Proofs.Graph.StuckSets

/-!
Levels assigned in place.

The levels are written before the files are put in order, so what keeps a failure from leaving a
registry half done is that the order is always a rearrangement of its files: putting them in order
cannot fail once levels are written. A failure comes from the order alone, before anything changed.
-/

namespace SolidityFlattener

/-- A file without its level. -/
def Node.unleveled (n : Node) : Node := { n with level := none }

namespace Registry

variable {r : Registry} {order : List Node} {paths : List Path}

/-! ### The levels written -/

@[simp] theorem nodes_modify (p : Path) (f : Node → Node) :
    (r.modify p f).nodes =
      r.nodes.map fun n => if n.path = p then { f n with path := n.path } else n := rfl

/-- Writing one by one counts down along the paths, each of which is met once. -/
theorem nodes_writeDown (hnodup : paths.Nodup) (level : Int) :
    (r.writeDown level paths).nodes = r.nodes.map fun n =>
      if n.path ∈ paths then { n with level := some (level - paths.idxOf n.path) } else n := by
  induction paths generalizing r level with
  | nil => simp [writeDown]
  | cons path rest ih =>
      obtain ⟨hnot, hrest⟩ := List.nodup_cons.1 hnodup
      rw [writeDown, ih hrest, nodes_modify, List.map_map]
      refine List.map_congr_left fun n _ => ?_
      by_cases hpath : n.path = path
      · simp [hpath, hnot]
      · have hidx : (path :: rest).idxOf n.path = rest.idxOf n.path + 1 :=
          List.idxOf_cons_ne _ (Ne.symm hpath)
        have hcount : level - 1 - (rest.idxOf n.path : Int) =
            level - ((path :: rest).idxOf n.path : Int) := by
          rw [hidx]
          omega
        simp only [Function.comp_apply, hpath, if_false, List.mem_cons, false_or, hcount]

/-- Written along a rearrangement of the registry, the levels are those of the order. -/
theorem writeDown_eq_writeLevels (hperm : paths.Perm r.paths) :
    r.writeDown paths.length paths = r.writeLevels paths := by
  refine Registry.ext ?_
  rw [nodes_writeDown (hperm.nodup_iff.2 r.nodup_paths), writeLevels, nodes_mapNodes]
  refine List.map_congr_left fun n hn => ?_
  rw [if_pos (hperm.mem_iff.2 (path_mem_paths hn))]
  rfl

/-! ### What an assignment can do -/

theorem exists_reorder_writeDown (h : r.order = .ok order) :
    ∃ leveled, r.level = .ok leveled ∧
      (r.writeDown order.length (order.map Node.path)).reorder (order.map Node.path) =
        .ok leveled := by
  obtain ⟨leveled, hleveled, -⟩ := exists_level h
  have hwritten := writeDown_eq_writeLevels ((order_perm h).map Node.path)
  rw [List.length_map] at hwritten
  refine ⟨leveled, hleveled, ?_⟩
  rw [level, h] at hleveled
  rw [hwritten]
  exact hleveled

theorem assignLevels_of_ok (h : r.order = .ok order) :
    ∃ leveled, r.level = .ok leveled ∧ r.assignLevels = (leveled, .ok leveled.nodes) := by
  obtain ⟨leveled, hleveled, hreorder⟩ := exists_reorder_writeDown h
  refine ⟨leveled, hleveled, ?_⟩
  simp only [assignLevels, h, hreorder]

theorem assignLevels_of_error {failure : Failure} (h : r.order = .error failure) :
    r.assignLevels = (r, .error failure) := by
  simp only [assignLevels, h]

/-- Assigned in place or not, levels are the same. -/
theorem level_eq_assignLevels (r : Registry) :
    r.level = r.assignLevels.2.map fun _ => r.assignLevels.1 := by
  cases h : r.order with
  | error failure =>
      rw [assignLevels_of_error h, level, h]
      rfl
  | ok order =>
      obtain ⟨leveled, hleveled, hassign⟩ := assignLevels_of_ok h
      rw [hassign, hleveled]
      rfl

/-! ### What it leaves -/

theorem map_level_withLevel (hnodup : (order.map Node.path).Nodup) :
    (order.map (withLevel order)).map Node.level =
      (List.range order.length).map fun i : ℕ => some ((order.length : Int) - i) := by
  refine List.ext_getElem (by simp) fun i hi hi' => ?_
  have hlevel := level_getElem_withLevel hnodup (i := i) (by simpa using hi)
  simp only [List.getElem_map, List.getElem_range] at hlevel ⊢
  rw [← hlevel]
  rfl

@[simp] theorem unleveled_withLevel (n : Node) : (withLevel order n).unleveled = n.unleveled := rfl

/-- Assigning levels in place either fails with the files that are stuck and leaves the registry as
it was, or leaves the files in their computed order with the levels counted down to one, which the
files by level reverse, and with nothing else changed. Once levels are written, putting the files
in order does not fail. -/
theorem assignLevels_all_or_nothing (r : Registry) :
    (∀ after failure, r.assignLevels = (after, .error failure) →
      after = r ∧ r.order = .error failure ∧ ∃ remaining, failure = .cyclic remaining) ∧
    (∀ after returned, r.assignLevels = (after, .ok returned) →
      ∃ order, r.order = .ok order ∧ order.Perm r.nodes ∧
        returned = after.nodes ∧
        after.paths = order.map Node.path ∧
        after.nodes.map Node.level =
          (List.range r.size).map (fun i : ℕ => some ((r.size : Int) - i)) ∧
        after.nodes.map Node.unleveled = order.map Node.unleveled ∧
        after.byLevel = .ok after.nodes.reverse) ∧
    ∀ order, r.order = .ok order →
      ∃ after, (r.writeDown order.length (order.map Node.path)).reorder (order.map Node.path) =
        .ok after ∧ r.assignLevels = (after, .ok after.nodes) := by
  refine ⟨?_, ?_, ?_⟩
  · intro after failure h
    cases horder : r.order with
    | ok order =>
        obtain ⟨leveled, -, hassign⟩ := assignLevels_of_ok horder
        cases hassign.symm.trans h
    | error e =>
        obtain ⟨rfl, rfl⟩ : r = after ∧ e = failure := by
          simpa using (assignLevels_of_error horder).symm.trans h
        exact ⟨rfl, rfl, _, (order_eq_error_iff.1 horder).2⟩
  · intro after returned h
    cases horder : r.order with
    | error e => cases (assignLevels_of_error horder).symm.trans h
    | ok order =>
        obtain ⟨leveled, hlevel, hassign⟩ := assignLevels_of_ok horder
        obtain ⟨rfl, rfl⟩ : leveled = after ∧ leveled.nodes = returned := by
          simpa using hassign.symm.trans h
        obtain ⟨other, hother, hnodes⟩ := exists_order_of_level hlevel
        obtain rfl : order = other := Except.ok.inj (horder.symm.trans hother)
        have hperm := order_perm horder
        have hnodup : (order.map Node.path).Nodup := (hperm.map _).nodup_iff.2 r.nodup_paths
        refine ⟨order, rfl, hperm, rfl, ?_, ?_, ?_, byLevel_eq_reverse hnodup hnodes⟩
        · rw [paths, hnodes, List.map_map]
          rfl
        · rw [hnodes, map_level_withLevel hnodup, size, hperm.length_eq]
        · rw [hnodes, List.map_map]
          rfl
  · intro order h
    obtain ⟨leveled, hleveled, hreorder⟩ := exists_reorder_writeDown h
    obtain ⟨leveled', hleveled', hassign⟩ := assignLevels_of_ok h
    obtain rfl : leveled = leveled' := Except.ok.inj (hleveled.symm.trans hleveled')
    exact ⟨leveled, hreorder, hassign⟩

/-- A registry with levels in the order it stands in, as an earlier run may have left them. -/
def stale (r : Registry) : Registry := r.writeLevels r.paths

theorem assignLevels_of_stale :
    (∃ remaining, knot.stale.assignLevels = (knot.stale, .error (.cyclic remaining))) ∧
      bow.stale.nodes.map Node.level = [some 2, some 1] ∧
      ∃ after, bow.stale.assignLevels = (after, .ok after.nodes) ∧
        after.paths = [.top "B.sol", .top "A.sol"] ∧
        after.nodes.map Node.level = [some 2, some 1] ∧
        after.byLevel = .ok after.nodes.reverse := by
  refine ⟨?_, by decide, ?_⟩
  · obtain ⟨hfails, hleaves, -⟩ := assignLevels_all_or_nothing knot.stale
    have horder : ∃ failure, knot.stale.order = .error failure := ⟨_, by cbv⟩
    obtain ⟨failure, horder⟩ := horder
    rcases hassign : knot.stale.assignLevels with ⟨after, e | returned⟩
    · obtain ⟨rfl, -, remaining, rfl⟩ := hfails _ _ hassign
      exact ⟨remaining, rfl⟩
    · obtain ⟨order, hok, -⟩ := hleaves _ _ hassign
      cases horder.symm.trans hok
  · obtain ⟨-, hleaves, hreorder⟩ := assignLevels_all_or_nothing bow.stale
    have horder : ∃ order, bow.stale.order = .ok order ∧
        order.map Node.path = [.top "B.sol", .top "A.sol"] := ⟨_, by cbv, rfl⟩
    obtain ⟨order, horder, hpaths⟩ := horder
    obtain ⟨after, -, hassign⟩ := hreorder order horder
    obtain ⟨other, hother, -, -, hafter, hlevels, -, hascending⟩ := hleaves _ _ hassign
    obtain rfl : order = other := Except.ok.inj (horder.symm.trans hother)
    exact ⟨after, hassign, hafter.trans hpaths, hlevels, hascending⟩

end Registry

end SolidityFlattener
