import SolidityFlattener.Proofs.Graph.Rounds
import SolidityFlattener.Proofs.Graph.StableSort

/-!
The order of a registry whose imports have no way back.

The height of a file is the length of its longest chain of imports. Where all imports are
registered, the round of number `k` takes exactly the files of height `k`, so no run gets stuck,
inheritance is never asked for, and the order is the registry order stably sorted by height.
-/

namespace SolidityFlattener

namespace Registry

/-- One more than the largest of some heights, and zero if there are none. -/
def heightAbove (heights : List ℕ) : ℕ :=
  match heights.max? with
  | none => 0
  | some m => m + 1

/-- A numbering of paths by height: zero for a file without imports, and otherwise one more than
the largest height among the imports. -/
def IsImportHeight (r : Registry) (height : Path → ℕ) : Prop :=
  ∀ n ∈ r.nodes, height n.path = heightAbove (n.imports.map height)

/-- The paths emitted so far are those of the files lower than `k`. -/
def EmittedBelow (r : Registry) (height : Path → ℕ) (k : ℕ) (emitted : List Path) : Prop :=
  ∀ m ∈ r.nodes, m.path ∈ emitted ↔ height m.path < k

variable {r : Registry} {height : Path → ℕ} {n : Node} {p q : Path}
  {emitted : List Path} {pending : List Node} {k : ℕ}

theorem IsImportHeight.lt (h : r.IsImportHeight height) (hn : n ∈ r.nodes) (hq : q ∈ n.imports) :
    height q < height n.path := by
  rw [h n hn, heightAbove]
  cases hmax : (n.imports.map height).max? with
  | none => simp [List.max?_eq_none_iff] at hmax; simp [hmax] at hq
  | some m =>
      have := (List.max?_eq_some_iff.1 hmax).2 (height q) (List.mem_map_of_mem hq)
      simp
      omega

/-- A height above zero is reached through an import. -/
theorem IsImportHeight.exists_import (h : r.IsImportHeight height) (hn : n ∈ r.nodes)
    (hpos : height n.path = k + 1) : ∃ q ∈ n.imports, height q = k := by
  rw [h n hn, heightAbove] at hpos
  cases hmax : (n.imports.map height).max? with
  | none => simp [hmax] at hpos
  | some m =>
      obtain ⟨q, hq, rfl⟩ := List.mem_map.1 (List.max?_eq_some_iff.1 hmax).1
      exact ⟨q, hq, by simpa [hmax] using hpos⟩

/-- Below a file there is a file of every smaller height. -/
theorem IsImportHeight.exists_of_le (h : r.IsImportHeight height) (hclosed : r.Closed .imports)
    (hn : n ∈ r.nodes) (hk : k ≤ height n.path) : ∃ m ∈ r.nodes, height m.path = k := by
  -- one import down at a time, by induction on how far there is to go
  induction hd : height n.path - k generalizing n with
  | zero => exact ⟨n, hn, by omega⟩
  | succ d ih =>
      obtain ⟨q, hq, hheight⟩ := h.exists_import hn (show height n.path = (k + d) + 1 by omega)
      obtain ⟨m, hm, rfl⟩ := mem_paths.1 (hclosed n hn q hq)
      exact ih hm (by omega) (by omega)

/-- What is not registered requires nothing, so a relation without a way back can be followed only
finitely often. -/
theorem wellFounded_requires {kind : RoundKind} (hacyclic : Acyclic (r.Requires kind)) :
    WellFounded fun q p => r.Requires kind p q := by
  rw [WellFounded.wellFounded_iff_has_min]
  intro S hne
  by_cases hS : ∀ p ∈ S, p ∈ r.paths
  · exact hacyclic.exists_last hS hne
  · simp only [not_forall] at hS
    obtain ⟨p, hp, hreg⟩ := hS
    refine ⟨p, hp, ?_⟩
    rintro q - ⟨n, hn, rfl, -⟩
    exact hreg (path_mem_paths hn)

/-- What the file under a path imports, if there is one. -/
def importsOf (r : Registry) (p : Path) : List Path := ((r.get? p).map Node.imports).getD []

theorem importsOf_path (hn : n ∈ r.nodes) : r.importsOf n.path = n.imports := by
  rw [importsOf, get?_path hn]
  rfl

theorem requires_of_mem_importsOf (hq : q ∈ r.importsOf p) : r.Requires .imports p q := by
  cases hget : r.get? p with
  | none => simp [importsOf, hget] at hq
  | some n =>
      obtain ⟨hn, rfl⟩ := get?_eq_some_iff.1 hget
      exact ⟨n, hn, rfl, by rwa [importsOf_path hn] at hq⟩

/-- The height of a path, by recursion along the imports, which come to an end. -/
noncomputable def heightOf (hacyclic : Acyclic (r.Requires .imports)) : Path → ℕ :=
  (wellFounded_requires hacyclic).fix fun p below =>
    heightAbove ((r.importsOf p).attach.map fun q => below q.1 (requires_of_mem_importsOf q.2))

theorem heightOf_eq (hacyclic : Acyclic (r.Requires .imports)) (p : Path) :
    heightOf hacyclic p = heightAbove ((r.importsOf p).map (heightOf hacyclic)) := by
  have hunfold : heightOf hacyclic p =
      heightAbove ((r.importsOf p).attach.map fun q => heightOf hacyclic q.1) :=
    WellFounded.fix_eq _ _ _
  rw [hunfold, List.attach_map_val (f := heightOf hacyclic)]

theorem exists_isImportHeight (hacyclic : Acyclic (r.Requires .imports)) :
    ∃ height, r.IsImportHeight height := by
  refine ⟨heightOf hacyclic, fun n hn => ?_⟩
  rw [heightOf_eq, importsOf_path hn]

/-- At the stage that has emitted what is lower than `k`, exactly the files of height `k` have
their imports met. -/
theorem Stage.met_imports_iff (h : r.Stage emitted pending) (hheight : r.IsImportHeight height)
    (hclosed : r.Closed .imports) (hk : r.EmittedBelow height k emitted) (hn : n ∈ pending) :
    n.Met .imports emitted ↔ height n.path = k := by
  obtain ⟨hreg, hpath⟩ := h.mem_pending.1 hn
  rw [hk n hreg] at hpath
  constructor
  · intro hmet
    by_contra hne
    obtain ⟨q, hq, hlow⟩ := hheight.exists_import hreg
      (show height n.path = (height n.path - 1) + 1 by omega)
    obtain ⟨m, hm, rfl⟩ := mem_paths.1 (hclosed n hreg q hq)
    have := (hk m hm).1 (hmet _ hq)
    omega
  · intro heq q hq
    obtain ⟨m, hm, rfl⟩ := mem_paths.1 (hclosed n hreg q hq)
    exact (hk m hm).2 (heq ▸ hheight.lt hreg hq)

/-- In a nonempty stage of this kind there is a file of height `k`, and the next round takes all of
them. -/
theorem Stage.nextRound_eq (h : r.Stage emitted pending) (hheight : r.IsImportHeight height)
    (hclosed : r.Closed .imports) (hk : r.EmittedBelow height k emitted) (hne : pending ≠ []) :
    nextRound emitted pending =
      some ⟨.imports, pending.filter fun n => height n.path = k⟩ := by
  have htakes : RoundKind.imports.takes emitted pending =
      pending.filter fun n => height n.path = k := by
    refine List.filter_congr fun n hn => ?_
    simp [h.met_imports_iff hheight hclosed hk hn]
  obtain ⟨n, hn⟩ := List.exists_mem_of_ne_nil _ hne
  obtain ⟨hreg, hpath⟩ := h.mem_pending.1 hn
  rw [hk n hreg, not_lt] at hpath
  obtain ⟨m, hm, hmk⟩ := hheight.exists_of_le hclosed hreg hpath
  have hmpending : m ∈ pending := h.mem_pending.2 ⟨hm, by rw [hk m hm]; omega⟩
  refine nextRound_eq_some_iff.2 ⟨?_, htakes.symm, by simp⟩
  exact List.ne_nil_of_mem (List.mem_filter.2 ⟨hmpending, by simpa using hmk⟩)

/-- After that round everything lower than `k + 1` is emitted. -/
theorem Stage.emittedBelow_next (h : r.Stage emitted pending) (hk : r.EmittedBelow height k emitted)
    {round : Round} (hmembers : round.members = pending.filter fun n => height n.path = k) :
    r.EmittedBelow height (k + 1) (emitted ++ round.paths) := by
  intro n hn
  have hround : n.path ∈ round.paths ↔ height n.path = k := by
    simp only [Round.paths, hmembers, List.mem_map, List.mem_filter, h.mem_pending,
      decide_eq_true_eq]
    constructor
    · rintro ⟨m, ⟨-, hm⟩, heq⟩
      rwa [← heq]
    · intro heq
      exact ⟨n, ⟨⟨hn, by rw [hk n hn]; omega⟩, heq⟩, rfl⟩
  rw [List.mem_append, hk n hn, hround]
  omega

/-- A run goes up the heights one by one and leaves nothing stuck. -/
theorem Stage.peel_eq (h : r.Stage emitted pending) (hheight : r.IsImportHeight height)
    (hclosed : r.Closed .imports) (hk : ∃ k, r.EmittedBelow height k emitted) :
    (peel emitted pending).stuck = [] ∧
      (peel emitted pending).order = sortedBy (fun n => height n.path) pending := by
  fun_induction peel emitted pending with
  | case1 emitted => simp [Peeling.order]
  | case2 emitted pending hne hnone =>
      obtain ⟨k, hk⟩ := hk
      rw [h.nextRound_eq hheight hclosed hk hne] at hnone
      simp at hnone
  | case3 emitted pending hne round hround rest ih =>
      obtain ⟨k, hk⟩ := hk
      have hmembers : round.members = pending.filter fun n => height n.path = k := by
        rw [h.nextRound_eq hheight hclosed hk hne] at hround
        rw [← Option.some.inj hround]
      have hremaining : round.remaining pending = pending.filter fun n => height n.path ≠ k := by
        refine List.filter_congr fun n hn => ?_
        have hreg := h.mem_pending.1 hn
        have hlow := hk n hreg.1
        have hnext := h.emittedBelow_next hk hmembers n hreg.1
        rw [List.mem_append] at hnext
        grind
      obtain ⟨hstuck, horder⟩ :=
        ih (h.next hround) ⟨k + 1, h.emittedBelow_next hk hmembers⟩
      have hleast : ∀ n ∈ pending, k ≤ height n.path := by
        intro n hn
        obtain ⟨hreg, hpath⟩ := h.mem_pending.1 hn
        rwa [hk n hreg, not_lt] at hpath
      refine ⟨hstuck, ?_⟩
      -- the round takes the least height that is left, which is what a stable sort puts in front
      calc
        Peeling.order ⟨round :: rest.rounds, rest.stuck⟩ = round.members ++ rest.order := by
          simp [Peeling.order]
        _ = pending.filter (fun n => height n.path = k) ++
              sortedBy (fun n => height n.path)
                (pending.filter fun n => height n.path ≠ k) := by
          rw [hmembers, horder, hremaining]
        _ = sortedBy (fun n => height n.path) pending := (sortedBy_eq_append hleast).symm

/-- The order of imports without a way back: the registry order stably sorted by height. -/
theorem order_eq_sortedBy (hheight : r.IsImportHeight height) (hclosed : r.Closed .imports) :
    r.order = .ok (sortedBy (fun n => height n.path) r.nodes) := by
  have hnone : r.EmittedBelow height 0 [] := by simp [EmittedBelow]
  obtain ⟨hstuck, horder⟩ := (Stage.start (r := r)).peel_eq hheight hclosed ⟨0, hnone⟩
  exact order_eq_ok_iff.2 ⟨hstuck, horder.symm⟩

end Registry

end SolidityFlattener
