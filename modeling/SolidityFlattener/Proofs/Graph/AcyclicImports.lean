import SolidityFlattener.Proofs.Graph.Heights
import SolidityFlattener.Proofs.Graph.Levels
import SolidityFlattener.Proofs.Imports.Discovery

/-!
Registries whose imports have no way back: their order, their levels, and where the root stands.
-/

namespace SolidityFlattener

namespace Registry

variable {r : Registry} {height : Path → ℕ} {order : List Node} {n : Node} {p q root : Path}

/-- The same files and imports with other inheritance. -/
def withInherits (r : Registry) (inherits : Path → List Path) : Registry :=
  r.mapNodes (fun n => { n with inherits := inherits n.path }) fun _ => rfl

theorem closed_withInherits {inherits : Path → List Path} (h : r.Closed .imports) :
    (r.withInherits inherits).Closed .imports := by
  intro n hn q hq
  obtain ⟨m, hm, rfl⟩ := List.mem_map.1 hn
  rw [withInherits, paths_mapNodes]
  exact h m hm q hq

theorem IsImportHeight.withInherits {inherits : Path → List Path} (h : r.IsImportHeight height) :
    (r.withInherits inherits).IsImportHeight height := by
  intro n hn
  obtain ⟨m, hm, rfl⟩ := List.mem_map.1 hn
  exact h m hm

/-- The height falls along every way of imports. -/
theorem IsImportHeight.le_of_requires (h : r.IsImportHeight height)
    (hway : Relation.ReflTransGen (r.Requires .imports) p q) : q = p ∨ height q < height p := by
  induction hway with
  | refl => exact .inl rfl
  | tail _ hedge ih =>
      obtain ⟨n, hn, rfl, hq⟩ := hedge
      have := h.lt hn hq
      rcases ih with rfl | ih
      · exact .inr this
      · exact .inr (by omega)

/-- What is imported stands before what imports it. -/
theorem IsImportHeight.idxOf_lt (h : r.IsImportHeight height) (hclosed : r.Closed .imports)
    (hn : n ∈ r.nodes) (hq : q ∈ n.imports) :
    ((sortedBy (fun n => height n.path) r.nodes).map Node.path).idxOf q <
      ((sortedBy (fun n => height n.path) r.nodes).map Node.path).idxOf n.path := by
  rw [map_sortedBy]
  have hpaths : ∀ p ∈ r.paths, p ∈ sortedBy height (r.nodes.map Node.path) := fun p hp =>
    mem_sortedBy.2 hp
  exact idxOf_lt_of_key_lt (sortedBy_pairwise height _) (hpaths q (hclosed n hn q hq))
    (hpaths _ (path_mem_paths hn)) (h.lt hn hq)

/-- A file that imports lead from to all others is the last. -/
theorem IsImportHeight.sortedBy_eq_concat (h : r.IsImportHeight height) (hroot : root ∈ r.paths)
    (hreach : ∀ p ∈ r.paths, Relation.ReflTransGen (r.Requires .imports) root p) :
    ∃ front last, sortedBy (fun n => height n.path) r.nodes = front ++ [last] ∧
      last.path = root := by
  obtain ⟨m, hm, rfl⟩ := mem_paths.1 hroot
  have hmem : m ∈ sortedBy (fun n => height n.path) r.nodes := mem_sortedBy.2 hm
  rcases List.eq_nil_or_concat (sortedBy (fun n => height n.path) r.nodes) with
    hnil | ⟨front, last, hsplit⟩
  · simp [hnil] at hmem
  · rw [List.concat_eq_append] at hsplit
    refine ⟨front, last, hsplit, ?_⟩
    have hlast : last ∈ r.nodes := by
      refine mem_sortedBy.1 (?_ : last ∈ sortedBy (fun n => height n.path) r.nodes)
      rw [hsplit]
      simp
    have hsorted := sortedBy_pairwise (fun n => height n.path) r.nodes
    rw [hsplit] at hmem hsorted
    -- a last file below the root could not stand behind it in a sorted list
    rcases h.le_of_requires (hreach _ (path_mem_paths hlast)) with heq | hlt
    · exact heq
    · rcases List.mem_append.1 hmem with hfront | heq
      · have := (List.pairwise_append.1 hsorted).2.2 m hfront last (by simp)
        omega
      · rw [List.mem_singleton.1 heq]

/-- Levelling keeps the last file of an order last and gives it level one. -/
theorem nodes_eq_concat_of_order {leveled : Registry} {front : List Node} {last : Node}
    (hperm : order.Perm r.nodes) (hnodes : leveled.nodes = order.map (withLevel order))
    (hsplit : order = front ++ [last]) :
    ∃ front' last', leveled.nodes = front' ++ [last'] ∧ last'.path = last.path ∧
      last'.level = some 1 := by
  refine ⟨front.map (withLevel order), withLevel order last, ?_, rfl, ?_⟩
  · rw [hnodes]
    nth_rewrite 2 [hsplit]
    rw [List.map_append, List.map_singleton]
  · have hnodup : (order.map Node.path).Nodup := (hperm.map _).nodup_iff.2 r.nodup_paths
    rw [hsplit, List.map_append] at hnodup
    have hnot : last.path ∉ front.map Node.path := fun hmem =>
      (List.nodup_append'.1 hnodup).2.2 hmem (by simp)
    simp only [withLevel, levelIn, hsplit, List.map_append, List.idxOf_append_of_notMem hnot]
    simp

/-- Where all imports are registered and have no way back, the order is the registry order stably
sorted by height. So each file stands after what it imports and below it in level, whatever it
inherits from; and a root that was found with its imports is the last, of level one. -/
theorem order_of_acyclic_imports (r : Registry) (hclosed : r.Closed .imports)
    (hacyclic : Acyclic (r.Requires .imports)) :
    ∃ order leveled, r.order = .ok order ∧ r.level = .ok leveled ∧
      (∃ height, r.IsImportHeight height) ∧
      (∀ height, r.IsImportHeight height →
        order = sortedBy (fun n => height n.path) r.nodes) ∧
      (∀ n ∈ r.nodes, ∀ q ∈ n.imports,
        (order.map Node.path).idxOf q < (order.map Node.path).idxOf n.path ∧
        ∃ above below, leveled.levelOf q = some above ∧ leveled.levelOf n.path = some below ∧
          below < above) ∧
      (∀ inherits, (r.withInherits inherits).order =
        .ok (order.map fun n => { n with inherits := inherits n.path })) ∧
      ∀ site extractor weight root path,
        (discover site extractor weight root).outcome = .ok (path, r) →
          ∃ front last, leveled.nodes = front ++ [last] ∧ last.path = path ∧
            last.level = some 1 := by
  obtain ⟨height, hheight⟩ := exists_isImportHeight hacyclic
  have horder := order_eq_sortedBy hheight hclosed
  have hperm := order_perm horder
  obtain ⟨leveled, hlevel, hnodes⟩ := exists_level horder
  refine ⟨_, leveled, horder, hlevel, ⟨height, hheight⟩, ?_, ?_, ?_, ?_⟩
  · intro other hother
    exact Except.ok.inj (horder.symm.trans (order_eq_sortedBy hother hclosed))
  · intro n hn q hq
    have hbefore := hheight.idxOf_lt hclosed hn hq
    refine ⟨hbefore, _, _, levelOf_eq hperm hnodes (hclosed n hn q hq),
      levelOf_eq hperm hnodes (path_mem_paths hn), levelIn_lt_iff.2 hbefore⟩
  · intro inherits
    rw [order_eq_sortedBy hheight.withInherits (closed_withInherits hclosed)]
    exact congrArg _ (map_sortedBy (fun n => { n with inherits := inherits n.path })
      (fun n => height n.path) r.nodes).symm
  · intro site extractor weight root path hdiscover
    obtain ⟨hroot, hreach⟩ := root_requires_of_discover hdiscover hclosed
    obtain ⟨front, last, hsplit, hlast⟩ := hheight.sortedBy_eq_concat hroot hreach
    rw [← hlast]
    exact nodes_eq_concat_of_order hperm hnodes hsplit

/-- Three files of heights two, one and zero, against the inheritance of the last. -/
def ladder : Registry where
  nodes := [
    { Node.ofPath (.top "A.sol") with imports := [.top "B.sol", .top "C.sol"] },
    { Node.ofPath (.top "B.sol") with imports := [.top "C.sol"] },
    { Node.ofPath (.top "C.sol") with inherits := [.top "A.sol"] }]
  nodup_paths := by decide

theorem acyclic_ladder : Acyclic (ladder.Requires .imports) := by
  refine Acyclic.of_falls (fun p => if p = .top "A.sol" then 2 else
    if p = .top "B.sol" then 1 else 0) ?_
  rintro p q ⟨n, hn, rfl, hq⟩
  have hcases := hn
  simp only [ladder, List.mem_cons, List.not_mem_nil, or_false] at hcases
  rcases hcases with rfl | rfl | rfl
  · obtain rfl | rfl : q = .top "B.sol" ∨ q = .top "C.sol" := by simpa using hq
    · decide
    · decide
  · obtain rfl : q = .top "C.sol" := by simpa using hq
    decide
  · simp [Node.ofPath] at hq

theorem order_of_ladder :
    (ladder.Closed .imports ∧ Acyclic (ladder.Requires .imports)) ∧
      ∃ order leveled, ladder.order = .ok order ∧ ladder.level = .ok leveled ∧
        order.map Node.path = [.top "C.sol", .top "B.sol", .top "A.sol"] := by
  have hclosed : ladder.Closed .imports := by
    unfold Closed
    decide
  obtain ⟨order, leveled, horder, hlevel, -⟩ :=
    order_of_acyclic_imports ladder hclosed acyclic_ladder
  refine ⟨⟨hclosed, acyclic_ladder⟩, order, leveled, horder, hlevel, ?_⟩
  have hpaths : ladder.order.map (List.map Node.path) =
      .ok [.top "C.sol", .top "B.sol", .top "A.sol"] := by
    cbv
  rw [horder] at hpaths
  exact Except.ok.inj hpaths

end Registry

end SolidityFlattener
