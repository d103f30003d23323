import SolidityFlattener.Proofs.Graph.Rounds

/-!
The rounds of an order, told without the run that finds them.

A round is told by what has been emitted before it: it takes all remaining files whose imports are
emitted, or, where there is none of these, all whose inheritance is. A sequence of rounds each of
which follows in this way on those before it can be found in one way only, so a run answers an
order exactly where such a sequence leaves no file over, and the order lists its rounds.
-/

namespace SolidityFlattener

namespace Registry

/-- The files whose paths have not been emitted, in registry order. -/
def remaining (r : Registry) (emitted : List Path) : List Node :=
  r.nodes.filter fun n => n.path ∉ emitted

/-- The round that follows once some paths have been emitted. -/
structure FollowsOn (r : Registry) (emitted : List Path) (round : Round) : Prop where
  members_ne_nil : round.members ≠ []
  members_eq : round.members = round.kind.takes emitted (r.remaining emitted)
  imports_first : round.kind = .inherits → ∀ n ∈ r.remaining emitted, ¬n.Met .imports emitted

/-- Rounds each of which follows on those before it. -/
def RoundSequence (r : Registry) (rounds : List Round) : Prop :=
  ∀ before round after, rounds = before ++ round :: after →
    r.FollowsOn (before.flatMap Round.paths) round

variable {r : Registry} {emitted : List Path} {pending order : List Node} {rounds : List Round}
  {round : Round}

/-- At a stage the next round is the one that follows on what has been emitted. -/
theorem Stage.nextRound_eq_some_iff_followsOn (h : r.Stage emitted pending) :
    nextRound emitted pending = some round ↔ r.FollowsOn emitted round := by
  obtain rfl : pending = r.remaining emitted := h.pending_eq
  rw [nextRound_eq_some_iff]
  constructor
  · rintro ⟨hne, hmembers, himports⟩
    exact ⟨hne, hmembers, himports⟩
  · rintro ⟨hne, hmembers, himports⟩
    exact ⟨hne, hmembers, himports⟩

theorem roundSequence_peeling (r : Registry) : r.RoundSequence r.peeling.rounds := by
  intro before round after hsplit
  obtain ⟨rest, hstage, hround⟩ := Stage.start.of_round hsplit
  exact hstage.nextRound_eq_some_iff_followsOn.1 hround

/-- Rounds that follow on what a stage has emitted and leave none of its files over are what a run
takes from there. -/
theorem Stage.peel_eq_of_followsOn (h : r.Stage emitted pending)
    (hrounds : ∀ before round after, rounds = before ++ round :: after →
      r.FollowsOn (emitted ++ before.flatMap Round.paths) round)
    (hall : ∀ n ∈ pending, n.path ∈ rounds.flatMap Round.paths) :
    peel emitted pending = ⟨rounds, []⟩ := by
  induction rounds generalizing emitted pending with
  | nil =>
      obtain rfl : pending = [] := List.eq_nil_iff_forall_not_mem.2 fun n hn => by
        simpa using hall n hn
      simp [peel]
  | cons round rounds ih =>
      have hfollows : r.FollowsOn emitted round := by simpa using hrounds [] round rounds rfl
      have hround : nextRound emitted pending = some round :=
        h.nextRound_eq_some_iff_followsOn.2 hfollows
      have hrest : peel (emitted ++ round.paths) (round.remaining pending) = ⟨rounds, []⟩ := by
        refine ih (h.next hround) ?_ ?_
        · intro before next after hsplit
          simpa using hrounds (round :: before) next after (by rw [hsplit, List.cons_append])
        · intro n hn
          obtain ⟨hpending, hnot⟩ := Round.mem_remaining.1 hn
          simpa [hnot] using hall n hpending
      have hne : pending ≠ [] := by
        obtain ⟨n, hn⟩ := List.exists_mem_of_ne_nil _ hfollows.members_ne_nil
        exact List.ne_nil_of_mem (Round.mem_pending hround hn)
      rw [peel, if_neg hne]
      split
      · next hnone => cases hround.symm.trans hnone
      · next next hnext =>
        obtain rfl : round = next := Option.some.inj (hround.symm.trans hnext)
        rw [hrest]

/-- What a sequence of rounds without a file left over lists is the order. -/
theorem RoundSequence.peeling_eq (h : r.RoundSequence rounds)
    (hall : (rounds.flatMap Round.members).Perm r.nodes) : r.peeling = ⟨rounds, []⟩ := by
  refine Stage.start.peel_eq_of_followsOn (by simpa [RoundSequence] using h) fun n hn => ?_
  obtain ⟨round, hround, hn⟩ := List.mem_flatMap.1 (hall.mem_iff.2 hn)
  exact List.mem_flatMap.2 ⟨round, hround, Round.path_mem_paths hn⟩

/-- A successful order holds every registered file once. It splits in exactly one way into rounds
each of which follows on those before it, so each file has all its imports, or all it inherits
from, strictly before it. -/
theorem order_splits_into_rounds (h : r.order = .ok order) :
    order.Perm r.nodes ∧ (order.map Node.path).Nodup ∧
      (∃! rounds, r.RoundSequence rounds ∧ order = rounds.flatMap Round.members) ∧
      ∀ n ∈ r.nodes, ∃ kind, ∀ q ∈ n.requires kind,
        (order.map Node.path).idxOf q < (order.map Node.path).idxOf n.path := by
  have hperm := order_perm h
  refine ⟨hperm, (hperm.map _).nodup_iff.2 r.nodup_paths, ?_, ?_⟩
  · refine ⟨r.peeling.rounds, ⟨r.roundSequence_peeling, (order_eq_ok_iff.1 h).2⟩, ?_⟩
    rintro rounds ⟨hrounds, rfl⟩
    rw [hrounds.peeling_eq hperm]
  · intro n hn
    obtain ⟨kind, hleaves⟩ := exists_leaves h (path_mem_paths hn)
    exact ⟨kind, fun q hq => hleaves.idxOf_lt h ⟨n, hn, rfl, hq⟩⟩

/-- A file without requirements, two in a circle of imports of which the first derives from the
second and notes it twice, and one that imports what is not registered. -/
def tangle : Registry where
  nodes := [
    { Node.ofPath (.top "A.sol") with
      imports := [.top "B.sol", .top "B.sol"], inherits := [.top "B.sol"] },
    { Node.ofPath (.top "B.sol") with imports := [.top "A.sol"] },
    Node.ofPath (.top "L.sol"),
    { Node.ofPath (.top "X.sol") with imports := [.top "Gone.sol"] }]
  nodup_paths := by decide

theorem order_tangle_splits :
    ∃ order, tangle.order = .ok order ∧
      order.map Node.path = [.top "L.sol", .top "B.sol", .top "X.sol", .top "A.sol"] ∧
      order.Perm tangle.nodes ∧
      (∃! rounds, tangle.RoundSequence rounds ∧ order = rounds.flatMap Round.members) ∧
      ∀ n ∈ tangle.nodes, ∃ kind, ∀ q ∈ n.requires kind,
        (order.map Node.path).idxOf q < (order.map Node.path).idxOf n.path := by
  have horder : ∃ order, tangle.order = .ok order ∧
      order.map Node.path = [.top "L.sol", .top "B.sol", .top "X.sol", .top "A.sol"] :=
    ⟨_, by cbv, rfl⟩
  obtain ⟨order, horder, hpaths⟩ := horder
  obtain ⟨hperm, -, hrounds, hbefore⟩ := order_splits_into_rounds horder
  exact ⟨order, horder, hpaths, hperm, hrounds, hbefore⟩

end Registry

end SolidityFlattener
