import SolidityFlattener.Graph.Rounds
import SolidityFlattener.Proofs.Graph.Edges

/-!
What a round can be, and what a whole run of rounds keeps.

`nextRound_eq_some_iff` says everything a round can be and is the only place where the choice
between imports and inheritance is opened. A `Stage` is a state that a run of rounds passes
through: the paths emitted so far and the files still pending. What holds of every stage is proved
by induction on the stages, and `Stage.exists_end` and `exists_stage_of_round` bring it back to the
computed order.
-/

namespace SolidityFlattener

/-! ### Files that may leave -/

/-- All that a file requires of one kind is among the emitted paths. -/
def Node.Met (n : Node) (kind : RoundKind) (emitted : List Path) : Prop :=
  ∀ p ∈ n.requires kind, p ∈ emitted

instance (n : Node) (kind : RoundKind) (emitted : List Path) : Decidable (n.Met kind emitted) :=
  inferInstanceAs (Decidable (∀ p ∈ n.requires kind, p ∈ emitted))

theorem Node.openImports_isEmpty (emitted : List Path) (n : Node) :
    (n.openImports emitted).isEmpty = decide (n.Met .imports emitted) := by
  rw [Bool.eq_iff_iff, decide_eq_true_iff]
  simp [openImports, Met]

theorem Node.openInherits_isEmpty (emitted : List Path) (n : Node) :
    (n.openInherits emitted).isEmpty = decide (n.Met .inherits emitted) := by
  rw [Bool.eq_iff_iff, decide_eq_true_iff]
  simp [openInherits, Met]

/-- The pending files that a kind of round would take. -/
def RoundKind.takes (kind : RoundKind) (emitted : List Path) (pending : List Node) : List Node :=
  pending.filter fun n => n.Met kind emitted

@[simp] theorem RoundKind.mem_takes {kind : RoundKind} {emitted : List Path} {pending : List Node}
    {n : Node} : n ∈ kind.takes emitted pending ↔ n ∈ pending ∧ n.Met kind emitted := by
  simp [takes]

theorem RoundKind.takes_eq_nil_iff {kind : RoundKind} {emitted : List Path}
    {pending : List Node} :
    kind.takes emitted pending = [] ↔ ∀ n ∈ pending, ¬n.Met kind emitted := by
  simp [List.eq_nil_iff_forall_not_mem]

theorem nextRound_eq (emitted : List Path) (pending : List Node) :
    nextRound emitted pending =
      if RoundKind.imports.takes emitted pending ≠ [] then
        some ⟨.imports, RoundKind.imports.takes emitted pending⟩
      else if RoundKind.inherits.takes emitted pending ≠ [] then
        some ⟨.inherits, RoundKind.inherits.takes emitted pending⟩
      else none := by
  simp only [nextRound, Node.openImports_isEmpty, Node.openInherits_isEmpty]
  rfl

/-- A round takes all that its kind allows, and goes by inheritance only where nothing can leave by
its imports. -/
theorem nextRound_eq_some_iff {emitted : List Path} {pending : List Node} {r : Round} :
    nextRound emitted pending = some r ↔
      r.members ≠ [] ∧ r.members = r.kind.takes emitted pending ∧
        (r.kind = .inherits → ∀ n ∈ pending, ¬n.Met .imports emitted) := by
  obtain ⟨kind, members⟩ := r
  rw [nextRound_eq, ← RoundKind.takes_eq_nil_iff]
  cases kind <;> grind

/-- No round is possible where every pending file has requirements of both kinds open. -/
theorem nextRound_eq_none_iff {emitted : List Path} {pending : List Node} :
    nextRound emitted pending = none ↔ ∀ n ∈ pending, ∀ kind, ¬n.Met kind emitted := by
  have himports : RoundKind.imports.takes emitted pending = [] ↔ _ := RoundKind.takes_eq_nil_iff
  have hinherits : RoundKind.inherits.takes emitted pending = [] ↔ _ :=
    RoundKind.takes_eq_nil_iff
  rw [nextRound_eq]
  constructor
  · intro h n hn kind
    cases kind <;> grind
  · intro h
    have := fun n hn => h n hn .imports
    have := fun n hn => h n hn .inherits
    grind

namespace Round

variable {emitted : List Path} {pending : List Node} {r : Round} {n : Node}

@[simp] theorem mem_remaining : n ∈ r.remaining pending ↔ n ∈ pending ∧ n.path ∉ r.paths := by
  simp [remaining]

theorem mem_members (h : nextRound emitted pending = some r) :
    n ∈ r.members ↔ n ∈ r.kind.takes emitted pending := by
  rw [(nextRound_eq_some_iff.1 h).2.1]

theorem mem_pending (h : nextRound emitted pending = some r) (hn : n ∈ r.members) :
    n ∈ pending := (nextRound_members h).2 n hn

theorem path_mem_paths (hn : n ∈ r.members) : n.path ∈ r.paths := List.mem_map_of_mem hn

/-- Whoever leaves has its requirements met, those of the round's kind. -/
theorem met_of_mem (h : nextRound emitted pending = some r) (hn : n ∈ r.members) :
    n.Met r.kind emitted :=
  (RoundKind.mem_takes.1 ((mem_members h).1 hn)).2

end Round

/-- The paths of an order are those of its rounds, one round after another. -/
theorem Peeling.map_path_order (p : Peeling) :
    p.order.map Node.path = p.rounds.flatMap Round.paths :=
  List.map_flatMap

/-! ### Stages of a run -/

namespace Registry

/-- The states that a run of rounds over a registry passes through: the paths emitted so far, and
the files still pending. -/
inductive Stage (r : Registry) : List Path → List Node → Prop
  | start : Stage r [] r.nodes
  | next {emitted : List Path} {pending : List Node} {round : Round} :
      Stage r emitted pending → nextRound emitted pending = some round →
        Stage r (emitted ++ round.paths) (round.remaining pending)

namespace Stage

variable {r : Registry} {emitted : List Path} {pending : List Node} {n : Node} {p : Path}

/-- Pending is what has not been emitted, in registry order. -/
theorem pending_eq (h : r.Stage emitted pending) :
    pending = r.nodes.filter fun n => n.path ∉ emitted := by
  induction h with
  | start => simp
  | next _ _ ih => simp [Round.remaining, ih, List.filter_filter, Bool.and_comm]

theorem mem_pending (h : r.Stage emitted pending) :
    n ∈ pending ↔ n ∈ r.nodes ∧ n.path ∉ emitted := by
  rw [h.pending_eq]
  simp

theorem mem_paths_of_emitted (h : r.Stage emitted pending) (hp : p ∈ emitted) : p ∈ r.paths := by
  induction h with
  | start => simp at hp
  | next h hround ih =>
      rcases List.mem_append.1 hp with hp | hp
      · exact ih hp
      · obtain ⟨n, hn, rfl⟩ := List.mem_map.1 hp
        exact path_mem_paths (h.mem_pending.1 (Round.mem_pending hround hn)).1

theorem nodup_emitted (h : r.Stage emitted pending) : emitted.Nodup := by
  induction h with
  | start => exact .nil
  | @next emitted pending round h hround ih =>
      have hsub : round.members.Sublist r.nodes := by
        rw [(nextRound_eq_some_iff.1 hround).2.1, h.pending_eq]
        exact List.filter_sublist.trans List.filter_sublist
      refine List.nodup_append'.2 ⟨ih, r.nodup_paths.sublist (hsub.map _), ?_⟩
      intro p hp hq
      obtain ⟨n, hn, rfl⟩ := List.mem_map.1 hq
      exact (h.mem_pending.1 (Round.mem_pending hround hn)).2 hp

/-- A registered file leaves where its requirements are met, those of the round's kind. -/
theorem met_of_path_mem (h : r.Stage emitted pending) {round : Round}
    (hround : nextRound emitted pending = some round) (hn : n ∈ r.nodes)
    (hp : n.path ∈ round.paths) : n.Met round.kind emitted := by
  obtain ⟨m, hm, hpath⟩ := List.mem_map.1 hp
  have hreg := (h.mem_pending.1 (Round.mem_pending hround hm)).1
  rw [← eq_of_path_eq hreg hn hpath]
  exact Round.met_of_mem hround hm

/-- A run from a stage ends at a stage where no round is possible any more. -/
theorem exists_end (h : r.Stage emitted pending) :
    ∃ rest, r.Stage (emitted ++ (peel emitted pending).order.map Node.path) rest ∧
      (peel emitted pending).stuck =
        rest.map (Node.unmet (emitted ++ (peel emitted pending).order.map Node.path)) ∧
      ∀ n ∈ rest, ∀ kind,
        ¬n.Met kind (emitted ++ (peel emitted pending).order.map Node.path) := by
  fun_induction peel emitted pending with
  | case1 emitted => exact ⟨[], by simpa [Peeling.order] using h, rfl, by simp⟩
  | case2 emitted pending _ hnone =>
      refine ⟨pending, by simpa [Peeling.order] using h, by simp [Peeling.order], ?_⟩
      simpa [Peeling.order] using nextRound_eq_none_iff.1 hnone
  | case3 emitted pending _ round hround rest ih =>
      -- the round leads to the next stage, and the rest of the run starts there
      simpa [Peeling.order, Round.paths, rest] using ih (h.next hround)

/-- Every round of a run from a stage starts at a stage. -/
theorem of_round (h : r.Stage emitted pending) {before after : List Round} {round : Round}
    (hrounds : (peel emitted pending).rounds = before ++ round :: after) :
    ∃ rest, r.Stage (emitted ++ before.flatMap Round.paths) rest ∧
      nextRound (emitted ++ before.flatMap Round.paths) rest = some round := by
  fun_induction peel emitted pending generalizing before with
  | case1 emitted => simp at hrounds
  | case2 emitted pending _ hnone => simp at hrounds
  | case3 emitted pending _ first hfirst rest ih =>
      cases before with
      | nil =>
          obtain ⟨rfl, -⟩ := List.cons_eq_cons.1 hrounds
          exact ⟨pending, by simpa using h, by simpa using hfirst⟩
      | cons other before =>
          obtain ⟨rfl, hrest⟩ := List.cons_eq_cons.1 hrounds
          simpa using ih (h.next hfirst) hrest

end Stage

/-! ### The computed order -/

variable {r : Registry} {order : List Node} {n : Node} {p q : Path}

theorem order_eq_ok_iff : r.order = .ok order ↔ r.peeling.stuck = [] ∧ order = r.peeling.order := by
  unfold Registry.order
  cases r.peeling.stuck <;> simp [eq_comm]

theorem order_eq_error_iff {e : Failure} :
    r.order = .error e ↔ r.peeling.stuck ≠ [] ∧ e = .cyclic r.peeling.stuck := by
  unfold Registry.order
  cases r.peeling.stuck <;> simp [eq_comm]

/-- The stage that a successful run ends at: all is emitted. -/
theorem stage_order (h : r.order = .ok order) : r.Stage (order.map Node.path) [] := by
  obtain ⟨hstuck, rfl⟩ := order_eq_ok_iff.1 h
  obtain ⟨rest, hend, hrest, -⟩ := (Stage.start (r := r)).exists_end
  obtain rfl : rest = [] := by simpa [peeling, hrest] using hstuck
  simpa [peeling] using hend

/-- A stage at which a run fails: something is pending, and no round is possible. -/
structure Stalled (r : Registry) (emitted : List Path) (pending : List Node) : Prop where
  stage : r.Stage emitted pending
  pending_ne_nil : pending ≠ []
  not_met : ∀ n ∈ pending, ∀ kind, ¬n.Met kind emitted

/-- The stage that a failing run ends at, and what it tells of it. -/
theorem exists_stalled_of_error {e : Failure} (h : r.order = .error e) :
    ∃ emitted pending, r.Stalled emitted pending ∧
      e = .cyclic (pending.map (Node.unmet emitted)) := by
  obtain ⟨hstuck, rfl⟩ := order_eq_error_iff.1 h
  obtain ⟨rest, hend, hrest, hnone⟩ := (Stage.start (r := r)).exists_end
  refine ⟨_, rest, ⟨hend, ?_, hnone⟩, congrArg _ hrest⟩
  rintro rfl
  exact hstuck hrest

/-- Where a round stands in an order: it starts at the stage that the rounds before it lead to, and
its files leave after what that stage has emitted and before all later rounds. -/
theorem stage_of_split {before after : List Round} {round : Round}
    (hsplit : r.peeling.rounds = before ++ round :: after) :
    ∃ pending, r.Stage (before.flatMap Round.paths) pending ∧
      nextRound (before.flatMap Round.paths) pending = some round ∧
      r.peeling.order.map Node.path =
        before.flatMap Round.paths ++ round.paths ++ after.flatMap Round.paths := by
  obtain ⟨pending, hstage, hnext⟩ := Stage.start.of_round hsplit
  refine ⟨pending, hstage, hnext, ?_⟩
  simp only [Peeling.map_path_order, hsplit, List.flatMap_append, List.flatMap_cons,
    List.append_assoc]

theorem exists_stage_of_round {round : Round} (hround : round ∈ r.peeling.rounds) :
    ∃ emitted pending after, r.Stage emitted pending ∧ nextRound emitted pending = some round ∧
      r.peeling.order.map Node.path = emitted ++ round.paths ++ after := by
  obtain ⟨before, after, hsplit⟩ := List.append_of_mem hround
  obtain ⟨pending, hstage, hnext, horder⟩ := stage_of_split hsplit
  exact ⟨_, pending, _, hstage, hnext, horder⟩

theorem mem_nodes_of_mem_order (hn : n ∈ r.peeling.order) : n ∈ r.nodes := by
  obtain ⟨round, hround, hn⟩ := List.mem_flatMap.1 hn
  obtain ⟨emitted, pending, after, hstage, hnext, -⟩ := exists_stage_of_round hround
  exact (hstage.mem_pending.1 (Round.mem_pending hnext hn)).1

/-- An order is a rearrangement of the registered files. -/
theorem order_perm (h : r.order = .ok order) : order.Perm r.nodes := by
  have hstage := stage_order h
  obtain ⟨-, rfl⟩ := order_eq_ok_iff.1 h
  refine (List.perm_ext_iff_of_nodup hstage.nodup_emitted.of_map r.nodup_nodes).2 fun n => ?_
  constructor
  · exact mem_nodes_of_mem_order
  · intro hn
    have hpath : n.path ∈ r.peeling.order.map Node.path := by
      by_contra hpath
      simpa using hstage.mem_pending.2 ⟨hn, hpath⟩
    obtain ⟨m, hm, heq⟩ := List.mem_map.1 hpath
    rwa [← eq_of_path_eq (mem_nodes_of_mem_order hm) hn heq]

/-- What a stage has emitted stands before what it has pending. -/
theorem Stage.idxOf_lt {emitted rest : List Path} {pending : List Node}
    (h : r.Stage emitted pending) (hq : q ∈ emitted) (hn : n ∈ pending) :
    (emitted ++ rest).idxOf q < (emitted ++ rest).idxOf n.path := by
  have hpath : n.path ∉ emitted := (h.mem_pending.1 hn).2
  rw [List.idxOf_append_of_mem hq, List.idxOf_append_of_notMem hpath]
  have := List.idxOf_lt_length_of_mem hq
  omega

/-! ### How files leave -/

/-- A file leaves in a round of a kind. -/
def Leaves (r : Registry) (kind : RoundKind) (p : Path) : Prop :=
  ∃ round ∈ r.peeling.rounds, round.kind = kind ∧ p ∈ round.paths

/-- Every file that is ordered leaves in a round of one kind or the other. -/
theorem exists_leaves (h : r.order = .ok order) (hp : p ∈ r.paths) : ∃ kind, r.Leaves kind p := by
  obtain ⟨n, hn, rfl⟩ := mem_paths.1 hp
  have hmem : n ∈ order := (order_perm h).mem_iff.2 hn
  rw [(order_eq_ok_iff.1 h).2] at hmem
  obtain ⟨round, hround, hn⟩ := List.mem_flatMap.1 hmem
  exact ⟨round.kind, round, hround, rfl, Round.path_mem_paths hn⟩

/-- What a file requires in the way it leaves stands before it. -/
theorem Leaves.idxOf_lt {kind : RoundKind} (hleaves : r.Leaves kind p) (h : r.order = .ok order)
    (hrequires : r.Requires kind p q) :
    (order.map Node.path).idxOf q < (order.map Node.path).idxOf p := by
  obtain ⟨round, hround, rfl, hp⟩ := hleaves
  obtain ⟨emitted, pending, after, hstage, hnext, horder⟩ := exists_stage_of_round hround
  obtain ⟨n, hn, rfl⟩ := List.mem_map.1 hp
  have hpending : n ∈ pending := Round.mem_pending hnext hn
  have hq : q ∈ n.requires round.kind :=
    (requires_path_iff (hstage.mem_pending.1 hpending).1).1 hrequires
  rw [(order_eq_ok_iff.1 h).2, horder, List.append_assoc]
  exact hstage.idxOf_lt (Round.met_of_mem hnext hn q hq) hpending

end Registry

end SolidityFlattener
