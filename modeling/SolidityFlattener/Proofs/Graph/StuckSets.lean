import SolidityFlattener.Proofs.Graph.Rounds

/-!
When the files of a registry cannot be ordered.

A set of files is stuck if each of them has an import and an inheritance that is in the set or not
registered: none of them can be the first to leave. No member of a stuck set ever leaves, and what
a run leaves pending is stuck. So a run fails exactly where a stuck set exists, and it is the
largest one that the failure lists.
-/

namespace SolidityFlattener

namespace Registry

/-- A requirement that a set of files can never see met from outside: it is in the set itself, or
registered nowhere. -/
def KeptBack (r : Registry) (S : Set Path) (p : Path) : Prop := p ∈ S ∨ p ∉ r.paths

/-- A set of registered files each of which is kept back in both kinds of requirements: by one of
its imports and by one of its bases. -/
structure Stuck (r : Registry) (S : Set Path) : Prop where
  nonempty : S.Nonempty
  registered : ∀ p ∈ S, p ∈ r.paths
  held : ∀ n ∈ r.nodes, n.path ∈ S → ∀ kind, ∃ p ∈ n.requires kind, r.KeptBack S p

def stuckCore (r : Registry) : Set Path := ⋃₀ {S | r.Stuck S}

open Classical in
/-- What a stuck file waits for, in the order in which it is noted. -/
noncomputable def coreUnmet (r : Registry) (n : Node) : Unmet :=
  ⟨n.path, n.imports.filter fun p => r.KeptBack r.stuckCore p,
    n.inherits.filter fun p => r.KeptBack r.stuckCore p⟩

open Classical in
/-- All stuck files in registry order, with what they wait for. -/
noncomputable def coreRemaining (r : Registry) : List Unmet :=
  (r.nodes.filter fun n => n.path ∈ r.stuckCore).map r.coreUnmet

variable {r : Registry} {S : Set Path} {emitted : List Path} {pending : List Node}

theorem KeptBack.mono {T : Set Path} {p : Path} (hST : S ⊆ T) (h : r.KeptBack S p) :
    r.KeptBack T p :=
  h.imp_left (@hST p)

theorem Stuck.subset_core (h : r.Stuck S) : S ⊆ r.stuckCore := Set.subset_sUnion_of_mem h

/-- The union of all stuck sets is itself stuck. -/
theorem Stuck.core (h : r.Stuck S) : r.Stuck r.stuckCore where
  nonempty := h.nonempty.mono h.subset_core
  registered := by
    rintro p ⟨T, hT, hp⟩
    exact hT.registered p hp
  held := by
    rintro n hn ⟨T, hT, hp⟩ kind
    obtain ⟨p, hp, hkept⟩ := hT.held n hn hp kind
    exact ⟨p, hp, hkept.mono (Stuck.subset_core hT)⟩

/-- What keeps a set back is never emitted before a member of the set is. -/
theorem Stage.not_mem_of_keptBack (h : r.Stage emitted pending) (hS : ∀ p ∈ S, p ∉ emitted)
    {p : Path} (hp : r.KeptBack S p) : p ∉ emitted := by
  rcases hp with hp | hp
  · exact hS p hp
  · exact fun hmem => hp (h.mem_paths_of_emitted hmem)

/-- No member of a stuck set ever leaves. -/
theorem Stage.disjoint_of_stuck (h : r.Stage emitted pending) (hS : r.Stuck S) :
    ∀ p ∈ S, p ∉ emitted := by
  induction h with
  | start => simp
  | @next emitted pending round h hround ih =>
      intro p hp hmem
      rcases List.mem_append.1 hmem with hmem | hmem
      · exact ih p hp hmem
      · obtain ⟨n, hn, rfl⟩ := List.mem_map.1 hmem
        have hreg : n ∈ r.nodes := (h.mem_pending.1 (Round.mem_pending hround hn)).1
        -- whoever leaves has met all of one kind, but a member of the set has one of each kept back
        obtain ⟨q, hq, hkept⟩ := hS.held n hreg hp round.kind
        exact h.not_mem_of_keptBack ih hkept (Round.met_of_mem hround hn q hq)

/-- What is pending where a run fails is a stuck set. -/
theorem Stalled.stuck (h : r.Stalled emitted pending) :
    r.Stuck {p | p ∈ r.paths ∧ p ∉ emitted} where
  nonempty := by
    obtain ⟨n, hn⟩ := List.exists_mem_of_ne_nil _ h.pending_ne_nil
    have hn := h.stage.mem_pending.1 hn
    exact ⟨n.path, path_mem_paths hn.1, hn.2⟩
  registered := fun p hp => hp.1
  held := by
    intro n hn hp kind
    have hopen := h.not_met n (h.stage.mem_pending.2 ⟨hn, hp.2⟩) kind
    simp only [Node.Met, not_forall] at hopen
    obtain ⟨q, hq, hmem⟩ := hopen
    refine ⟨q, hq, ?_⟩
    by_cases hreg : q ∈ r.paths
    · exact .inl ⟨hreg, hmem⟩
    · exact .inr hreg

/-- It is the largest one, since no stuck set has lost a member. -/
theorem Stalled.mem_core_iff (h : r.Stalled emitted pending) {p : Path} :
    p ∈ r.stuckCore ↔ p ∈ r.paths ∧ p ∉ emitted := by
  constructor
  · intro hp
    exact ⟨h.stuck.core.registered p hp, h.stage.disjoint_of_stuck h.stuck.core p hp⟩
  · intro hp
    exact h.stuck.subset_core hp

/-- The paths that keep a file back there are those not emitted. -/
theorem Stalled.keptBack_core_iff (h : r.Stalled emitted pending) {p : Path} :
    r.KeptBack r.stuckCore p ↔ p ∉ emitted := by
  rw [KeptBack, h.mem_core_iff]
  have := h.stage.mem_paths_of_emitted (p := p)
  tauto

/-- What a run that fails tells is what the largest stuck set waits for. -/
theorem Stalled.map_unmet_eq (h : r.Stalled emitted pending) :
    pending.map (Node.unmet emitted) = r.coreRemaining := by
  have hunmet : Node.unmet emitted = r.coreUnmet := by
    funext n
    simp [Node.unmet, Node.openImports, Node.openInherits, coreUnmet, h.keptBack_core_iff]
  rw [coreRemaining, hunmet, h.stage.pending_eq]
  congr 1
  refine List.filter_congr fun n hn => ?_
  simp [h.mem_core_iff, path_mem_paths hn]

/-- Each stuck file waits for an import and for an inheritance. -/
theorem Stuck.coreUnmet_ne_nil (h : r.Stuck r.stuckCore) {n : Node} (hn : n ∈ r.nodes)
    (hp : n.path ∈ r.stuckCore) :
    (r.coreUnmet n).imports ≠ [] ∧ (r.coreUnmet n).inherits ≠ [] := by
  obtain ⟨p, hpmem, hpkept⟩ := h.held n hn hp .imports
  obtain ⟨q, hqmem, hqkept⟩ := h.held n hn hp .inherits
  constructor
  · exact List.ne_nil_of_mem (List.mem_filter.2 ⟨hpmem, by simpa using hpkept⟩)
  · exact List.ne_nil_of_mem (List.mem_filter.2 ⟨hqmem, by simpa using hqkept⟩)

/-- Nothing is stuck where the requirements of one kind are registered and have no way back. -/
theorem not_stuck_of_acyclic {kind : RoundKind} (hclosed : r.Closed kind)
    (hacyclic : Acyclic (r.Requires kind)) : ¬r.Stuck S := by
  intro h
  obtain ⟨p, hp, hlast⟩ := hacyclic.exists_last h.registered h.nonempty
  obtain ⟨n, hn, rfl⟩ := mem_paths.1 (h.registered p hp)
  obtain ⟨q, hq, hkept⟩ := h.held n hn hp kind
  exact hlast q (hkept.resolve_right (not_not.2 (hclosed n hn q hq))) ⟨n, hn, rfl, hq⟩

theorem eq_cyclic_of_order_error {e : Failure} (h : r.order = .error e) :
    r.Stuck r.stuckCore ∧ e = .cyclic r.coreRemaining := by
  obtain ⟨emitted, pending, hstalled, rfl⟩ := exists_stalled_of_error h
  exact ⟨hstalled.stuck.core, congrArg _ hstalled.map_unmet_eq⟩

/-- Where a set is stuck, a run fails: at a successful end nothing is left that could be stuck. -/
theorem Stuck.order_ne_ok (h : r.Stuck S) (order : List Node) : r.order ≠ .ok order := by
  intro hok
  have hend := stage_order hok
  obtain ⟨p, hp⟩ := h.nonempty
  obtain ⟨n, hn, rfl⟩ := mem_paths.1 (h.registered p hp)
  exact List.not_mem_nil (hend.mem_pending.2 ⟨hn, hend.disjoint_of_stuck h _ hp⟩)

open Classical in
/-- A run fails exactly where a stuck set exists. The failure lists the largest one in registry
order, and for each member the imports and the inheritance that lie in it or are registered
nowhere. So a run succeeds where all requirements of one kind are registered and have no way
back. -/
theorem order_fails_iff_exists_stuck (r : Registry) :
    ((∃ remaining, r.order = .error (.cyclic remaining)) ↔ ∃ S, r.Stuck S) ∧
      (∀ e, r.order = .error e →
        e = .cyclic r.coreRemaining ∧ r.Stuck r.stuckCore ∧
          r.coreRemaining.map Unmet.path = r.paths.filter (fun p => decide (p ∈ r.stuckCore)) ∧
          ∀ u ∈ r.coreRemaining, u.imports ≠ [] ∧ u.inherits ≠ []) ∧
      ∀ kind, r.Closed kind → Acyclic (r.Requires kind) → ∃ order, r.order = .ok order := by
  refine ⟨⟨?_, ?_⟩, ?_, ?_⟩
  · rintro ⟨remaining, h⟩
    exact ⟨_, (eq_cyclic_of_order_error h).1⟩
  · rintro ⟨S, hS⟩
    cases h : r.order with
    | ok order => exact absurd h (hS.order_ne_ok order)
    | error e => exact ⟨_, by rw [(eq_cyclic_of_order_error h).2]⟩
  · intro e h
    obtain ⟨hcore, he⟩ := eq_cyclic_of_order_error h
    refine ⟨he, hcore, ?_, ?_⟩
    · simp only [coreRemaining, paths, List.map_map, List.filter_map]
      rfl
    · intro u hu
      obtain ⟨n, hn, rfl⟩ := List.mem_map.1 hu
      obtain ⟨hn, hp⟩ := List.mem_filter.1 hn
      exact hcore.coreUnmet_ne_nil hn (by simpa using hp)
  · intro kind hclosed hacyclic
    cases h : r.order with
    | ok order => exact ⟨order, rfl⟩
    | error e => exact absurd (eq_cyclic_of_order_error h).1 (not_stuck_of_acyclic hclosed hacyclic)

/-- Two files that require each other in both kinds, one of them also what is not there, and a file
that requires nothing. -/
def knot : Registry where
  nodes := [Node.ofPath (.top "L.sol"),
    { Node.ofPath (.top "A.sol") with
      imports := [.top "L.sol", .top "B.sol"], inherits := [.top "B.sol"] },
    { Node.ofPath (.top "B.sol") with
      imports := [.top "A.sol", .top "X.sol"], inherits := [.top "A.sol"] }]
  nodup_paths := by decide

/-- Two files that import each other, of which one derives from the other. -/
def bow : Registry where
  nodes := [
    { Node.ofPath (.top "A.sol") with imports := [.top "B.sol"], inherits := [.top "B.sol"] },
    { Node.ofPath (.top "B.sol") with imports := [.top "A.sol"] }]
  nodup_paths := by decide

theorem order_knot : knot.order = .error (.cyclic [
    ⟨.top "A.sol", [.top "B.sol"], [.top "B.sol"]⟩,
    ⟨.top "B.sol", [.top "A.sol", .top "X.sol"], [.top "A.sol"]⟩]) := by
  cbv

theorem acyclic_bow : Acyclic (bow.Requires .inherits) := by
  refine Acyclic.of_falls (fun p => if p = .top "A.sol" then 1 else 0) ?_
  rintro p q ⟨n, hn, rfl, hq⟩
  have hcases := hn
  simp only [bow, List.mem_cons, List.not_mem_nil, or_false] at hcases
  rcases hcases with rfl | rfl
  · obtain rfl : q = .top "B.sol" := by simpa using hq
    decide
  · simp [Node.ofPath] at hq

theorem order_fails_knot :
    knot.order = .error (.cyclic knot.coreRemaining) ∧ knot.Stuck knot.stuckCore ∧
      (bow.Closed .inherits ∧ Acyclic (bow.Requires .inherits)) ∧
        ∃ order, bow.order = .ok order := by
  obtain ⟨-, hfail, -⟩ := order_fails_iff_exists_stuck knot
  obtain ⟨heq, hstuck, -⟩ := hfail _ order_knot
  have hclosed : bow.Closed .inherits := by
    unfold Closed
    decide
  refine ⟨by rw [order_knot, heq], hstuck, ⟨hclosed, acyclic_bow⟩, ?_⟩
  exact (order_fails_iff_exists_stuck bow).2.2 .inherits hclosed acyclic_bow

end Registry

end SolidityFlattener
