import SolidityFlattener.Graph.Levels
import SolidityFlattener.Proofs.Graph.Rounds

/-!
What levelling a registry gives: its files in the computed order, each with the level that its
place in the order has, and unchanged apart from that. The levels fall by one from file to file and
end at one, so the files by rising level are those in order from the last to the first.
-/

namespace SolidityFlattener

/-- What stands earlier in an order has the higher level. -/
theorem levelIn_lt_iff {order : List Path} {p q : Path} :
    levelIn order p < levelIn order q ↔ order.idxOf q < order.idxOf p := by
  unfold levelIn
  omega

namespace Registry

variable {r : Registry} {order : List Node} {n : Node} {p : Path}

/-- A file with the level that its place in an order has. -/
def withLevel (order : List Node) (n : Node) : Node :=
  { n with level := some (levelIn (order.map Node.path) n.path) }

@[simp] theorem withLevel_path : (withLevel order n).path = n.path := rfl

theorem nodes_of_reorder {r' : Registry} {paths : List Path} (h : r.reorder paths = .ok r') :
    r'.nodes = paths.filterMap r.get? := by
  unfold reorder at h
  split at h
  · exact (Except.ok.inj h) ▸ rfl
  · cases h

theorem exists_reorder {paths : List Path} (h : paths.Perm r.paths) :
    ∃ r', r.reorder paths = .ok r' := by
  unfold reorder
  rw [dif_pos h]
  exact ⟨_, rfl⟩

/-- Levelling gives the files in order, with their levels. -/
theorem exists_level (h : r.order = .ok order) :
    ∃ leveled, r.level = .ok leveled ∧ leveled.nodes = order.map (withLevel order) := by
  have hperm := order_perm h
  have hpaths : (order.map Node.path).Perm (r.writeLevels (order.map Node.path)).paths := by
    rw [writeLevels, paths_mapNodes]
    exact hperm.map Node.path
  obtain ⟨leveled, hleveled⟩ := exists_reorder hpaths
  refine ⟨leveled, ?_, ?_⟩
  · rw [level, h]
    exact hleveled
  · rw [nodes_of_reorder hleveled, List.filterMap_map]
    have hget : ∀ n ∈ order, ((r.writeLevels (order.map Node.path)).get? ∘ Node.path) n =
        (some ∘ withLevel order) n := by
      intro n hn
      simp [writeLevels, get?_path (hperm.mem_iff.1 hn), withLevel]
    rw [List.filterMap_congr hget, List.filterMap_eq_map]

theorem exists_order_of_level {leveled : Registry} (h : r.level = .ok leveled) :
    ∃ order, r.order = .ok order ∧ leveled.nodes = order.map (withLevel order) := by
  cases horder : r.order with
  | error e =>
      rw [level, horder] at h
      cases h
  | ok order =>
      obtain ⟨leveled', hleveled', hnodes⟩ := exists_level horder
      obtain rfl : leveled' = leveled := Except.ok.inj (hleveled'.symm.trans h)
      exact ⟨order, rfl, hnodes⟩

def levelOf (r : Registry) (p : Path) : Option Int := (r.get? p).bind Node.level

theorem levelOf_eq {leveled : Registry} (hperm : order.Perm r.nodes)
    (h : leveled.nodes = order.map (withLevel order)) (hp : p ∈ r.paths) :
    leveled.levelOf p = some (levelIn (order.map Node.path) p) := by
  obtain ⟨n, hn, rfl⟩ := mem_paths.1 hp
  have hmem : withLevel order n ∈ leveled.nodes := by
    rw [h]
    exact List.mem_map_of_mem (hperm.mem_iff.2 hn)
  have hget : leveled.get? n.path = some (withLevel order n) := get?_path hmem
  rw [levelOf, hget]
  rfl

/-! ### Levels along the order -/

theorem level_getElem_withLevel (hnodup : (order.map Node.path).Nodup) {i : ℕ}
    (hi : i < (order.map (withLevel order)).length) :
    (order.map (withLevel order))[i].level.getD 0 = (order.length : Int) - i := by
  have hlt : i < order.length := by simpa using hi
  have hplace : (order.map Node.path).idxOf order[i].path = i := by
    have hgetElem := hnodup.idxOf_getElem i (by simpa using hlt)
    rwa [List.getElem_map] at hgetElem
  simp [withLevel, levelIn, hplace]

/-- From the last file to the first, levels rise by one from one. -/
theorem map_level_reverse_withLevel (hnodup : (order.map Node.path).Nodup) :
    ((order.map (withLevel order)).reverse.map fun n => n.level.getD 0) =
      (List.range order.length).map fun i : ℕ => (i : Int) + 1 := by
  refine List.ext_getElem (by simp) fun i hi hi' => ?_
  have hlt : i < order.length := by simpa using hi
  rw [List.getElem_map, List.getElem_reverse, level_getElem_withLevel hnodup]
  simp only [List.getElem_map, List.getElem_range, List.length_map]
  omega

theorem level_isSome_of_nodes_eq {leveled : Registry}
    (h : leveled.nodes = order.map (withLevel order)) : ∀ n ∈ leveled.nodes, n.level.isSome := by
  intro n hn
  rw [h] at hn
  obtain ⟨m, -, rfl⟩ := List.mem_map.1 hn
  rfl

theorem byLevel_eq_mergeSort (h : ∀ n ∈ r.nodes, n.level.isSome) :
    r.byLevel = .ok (r.nodes.mergeSort fun a b => a.level.getD 0 ≤ b.level.getD 0) := by
  have hnone : (r.nodes.filter fun n => n.level.isNone) = [] := by
    rw [List.filter_eq_nil_iff]
    intro n hn
    simpa using Option.isSome_iff_ne_none.1 (h n hn)
  unfold byLevel
  rw [hnone]
  rfl

/-- Files in order come out from the last to the first. -/
theorem byLevel_eq_reverse {leveled : Registry} (hnodup : (order.map Node.path).Nodup)
    (h : leveled.nodes = order.map (withLevel order)) :
    leveled.byLevel = .ok leveled.nodes.reverse := by
  have hrises : leveled.nodes.reverse.Pairwise fun a b => a.level.getD 0 < b.level.getD 0 := by
    rw [h, ← List.pairwise_map (f := fun n : Node => n.level.getD 0),
      map_level_reverse_withLevel hnodup, List.pairwise_map]
    exact List.pairwise_lt_range.imp fun hlt => by omega
  -- no two files have one level, so a sorted list of them is determined by what it holds
  have hkeys : (leveled.nodes.reverse.map fun n => n.level.getD 0).Nodup := by
    rw [List.Nodup, List.pairwise_map]
    exact hrises.imp fun hlt => hlt.ne
  have hperm : (leveled.nodes.mergeSort fun a b => a.level.getD 0 ≤ b.level.getD 0).Perm
      leveled.nodes.reverse := (List.mergeSort_perm _ _).trans (List.reverse_perm _).symm
  have hsorted : (leveled.nodes.mergeSort fun a b => a.level.getD 0 ≤ b.level.getD 0).Pairwise
      fun a b => decide (a.level.getD 0 ≤ b.level.getD 0) :=
    List.pairwise_mergeSort (by intro a b c; simp only [decide_eq_true_eq]; omega)
      (by intro a b; simp only [Bool.or_eq_true, decide_eq_true_eq]; omega) _
  rw [byLevel_eq_mergeSort (level_isSome_of_nodes_eq h)]
  refine congrArg Except.ok (hperm.eq_of_pairwise ?_ hsorted
    (hrises.imp fun hlt => by simpa using hlt.le))
  intro a b ha hb hab hba
  refine List.inj_on_of_nodup_map hkeys (hperm.mem_iff.1 ha) hb ?_
  simp only [decide_eq_true_eq] at hab hba
  omega

end Registry

end SolidityFlattener
