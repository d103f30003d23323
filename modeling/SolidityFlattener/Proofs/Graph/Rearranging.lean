import SolidityFlattener.Proofs.Graph.Levels
import SolidityFlattener.Proofs.Graph.RoundSequence
import Mathlib.Data.Finset.Dedup

/-!
What an order owes to the order of the registry.

Who may leave in a round is told by paths and requirements alone, so registries that hold the same
files in different orders go through the same rounds. A `Wave` is a round without the order of its
members; read in a registry it is a round again, with the members as they stand there. Levelling
puts a registry in an order in which its own rounds stand one after another, so it changes nothing
where it is done again.
-/

namespace SolidityFlattener

/-- What the order of a registry depends on: a path with what it requires. -/
def Node.wiring (n : Node) : Path × List Path × List Path := (n.path, n.imports, n.inherits)

theorem Node.met_congr {n m : Node} (h : n.wiring = m.wiring) {emitted emitted' : List Path}
    (hemitted : ∀ p, p ∈ emitted ↔ p ∈ emitted') (kind : RoundKind) :
    n.Met kind emitted ↔ m.Met kind emitted' := by
  obtain ⟨-, himports, hinherits⟩ : n.path = m.path ∧ n.imports = m.imports ∧
      n.inherits = m.inherits := by simpa [wiring] using h
  cases kind <;> simp [Met, himports, hinherits, hemitted]

/-- Paths that leave together, in no order. -/
structure Wave where
  kind : RoundKind
  paths : Finset Path

/-- A wave with its members as they stand in a registry. -/
def Wave.inRegistry (r : Registry) (w : Wave) : Round :=
  ⟨w.kind, r.nodes.filter fun n => n.path ∈ w.paths⟩

def Round.wave (round : Round) : Wave := ⟨round.kind, round.paths.toFinset⟩

@[simp] theorem Round.wave_kind (round : Round) : round.wave.kind = round.kind := rfl

@[simp] theorem Round.mem_wave_paths {round : Round} {p : Path} :
    p ∈ round.wave.paths ↔ p ∈ round.paths := List.mem_toFinset

namespace Registry

variable {r r' leveled : Registry} {n : Node} {p : Path} {emitted emitted' : List Path}
  {order order' : List Node} {rounds : List Round} {round : Round} {waves : List Wave}

/-- The same paths with the same requirements, in any order. -/
def SameWiring (r r' : Registry) : Prop := (r.nodes.map Node.wiring).Perm (r'.nodes.map Node.wiring)

theorem SameWiring.symm (h : r.SameWiring r') : r'.SameWiring r := List.Perm.symm h

theorem SameWiring.exists_wiring_eq (h : r.SameWiring r') (hn : n ∈ r.nodes) :
    ∃ m ∈ r'.nodes, m.wiring = n.wiring := by
  simpa using h.mem_iff.1 (List.mem_map_of_mem hn)

theorem SameWiring.paths_perm (h : r.SameWiring r') : r.paths.Perm r'.paths := by
  have hpaths : ∀ nodes : List Node, (nodes.map Node.wiring).map Prod.fst = nodes.map Node.path :=
    fun nodes => by simp [Node.wiring, Function.comp_def]
  simpa [paths, hpaths] using h.map Prod.fst

/-! ### One round -/

@[simp] theorem mem_paths_inRegistry {w : Wave} :
    p ∈ (w.inRegistry r).paths ↔ p ∈ r.paths ∧ p ∈ w.paths := by
  simp only [Round.paths, Wave.inRegistry, List.mem_map, List.mem_filter, decide_eq_true_eq,
    mem_paths]
  constructor
  · rintro ⟨n, ⟨hn, hw⟩, rfl⟩
    exact ⟨⟨n, hn, rfl⟩, hw⟩
  · rintro ⟨⟨n, hn, rfl⟩, hw⟩
    exact ⟨n, ⟨hn, hw⟩, rfl⟩

namespace FollowsOn

/-- Which registered files a round takes. -/
theorem path_mem_iff (h : r.FollowsOn emitted round) (hn : n ∈ r.nodes) :
    n.path ∈ round.paths ↔ n.path ∉ emitted ∧ n.Met round.kind emitted := by
  have hmem : ∀ m, m ∈ round.members ↔ (m ∈ r.nodes ∧ m.path ∉ emitted) ∧
      m.Met round.kind emitted := by
    intro m
    rw [h.members_eq]
    simp [remaining]
  constructor
  · intro hpath
    obtain ⟨m, hm, heq⟩ := List.mem_map.1 hpath
    obtain ⟨⟨hreg, hnot⟩, hmet⟩ := (hmem m).1 hm
    rw [← eq_of_path_eq hreg hn heq]
    exact ⟨hnot, hmet⟩
  · rintro ⟨hnot, hmet⟩
    exact Round.path_mem_paths ((hmem n).2 ⟨⟨hn, hnot⟩, hmet⟩)

/-- A round that follows holds its members as they stand in the registry. -/
theorem inRegistry_wave (h : r.FollowsOn emitted round) : round.wave.inRegistry r = round := by
  refine congrArg (Round.mk round.kind) ?_
  rw [h.members_eq, RoundKind.takes, remaining, List.filter_filter]
  refine List.filter_congr fun n hn => ?_
  rw [Bool.eq_iff_iff]
  simpa [and_comm] using h.path_mem_iff hn

/-- Where one round follows in a registry, it follows in every other of the same files. -/
theorem transfer (h : r.FollowsOn emitted round) (hsame : r.SameWiring r')
    (hemitted : ∀ p, p ∈ emitted ↔ p ∈ emitted') :
    r'.FollowsOn emitted' (round.wave.inRegistry r') := by
  -- each file has a twin in the other registry, which may leave exactly where the file may
  have htwin : ∀ m ∈ r'.nodes, ∃ n ∈ r.nodes, n.path = m.path ∧
      ∀ kind, n.Met kind emitted ↔ m.Met kind emitted' := by
    intro m hm
    obtain ⟨n, hn, hwiring⟩ := hsame.symm.exists_wiring_eq hm
    exact ⟨n, hn, congrArg Prod.fst hwiring, Node.met_congr hwiring hemitted⟩
  refine ⟨?_, ?_, ?_⟩
  · obtain ⟨n, hn⟩ := List.exists_mem_of_ne_nil _ h.members_ne_nil
    have hpath : n.path ∈ round.paths := Round.path_mem_paths hn
    have hreg : n ∈ r.nodes := by
      rw [h.members_eq] at hn
      exact (List.mem_filter.1 (RoundKind.mem_takes.1 hn).1).1
    obtain ⟨m, hm, hwiring⟩ := hsame.exists_wiring_eq hreg
    have heq : m.path = n.path := congrArg Prod.fst hwiring
    exact List.ne_nil_of_mem (List.mem_filter.2 ⟨hm, by simpa [heq] using hpath⟩)
  · simp only [Wave.inRegistry, Round.wave_kind, Round.mem_wave_paths, RoundKind.takes, remaining,
      List.filter_filter]
    refine List.filter_congr fun m hm => ?_
    obtain ⟨n, hn, hpath, hmet⟩ := htwin m hm
    rw [Bool.eq_iff_iff]
    simpa [← hpath, hemitted, hmet, and_comm] using h.path_mem_iff hn
  · intro hkind m hm himports
    obtain ⟨hreg, hnot⟩ : m ∈ r'.nodes ∧ m.path ∉ emitted' := by simpa [remaining] using hm
    obtain ⟨n, hn, hpath, hmet⟩ := htwin m hreg
    have hremains : n ∈ r.remaining emitted := by
      simpa [remaining, hn, hpath, hemitted] using hnot
    exact h.imports_first hkind n hremains ((hmet .imports).2 himports)

theorem mem_paths_of_mem (h : r.FollowsOn emitted round) (hp : p ∈ round.paths) : p ∈ r.paths := by
  rw [← h.inRegistry_wave] at hp
  exact (mem_paths_inRegistry.1 hp).1

end FollowsOn

/-! ### All rounds -/

/-- The rounds of a registry as they are in another one of the same files. -/
theorem RoundSequence.transfer (h : r.RoundSequence rounds) (hsame : r.SameWiring r') :
    r'.RoundSequence (rounds.map fun round => round.wave.inRegistry r') := by
  intro before' round' after' hsplit
  obtain ⟨before, rest, rfl, rfl, hrest⟩ := List.map_eq_append_iff.1 hsplit
  obtain ⟨round, after, rfl, rfl, rfl⟩ := List.map_eq_cons_iff.1 hrest
  refine (h before round after rfl).transfer hsame fun p => ?_
  simp only [List.mem_flatMap, List.mem_map, exists_exists_and_eq_and, mem_paths_inRegistry,
    Round.mem_wave_paths]
  constructor
  · rintro ⟨other, hother, hp⟩
    obtain ⟨front, back, rfl⟩ := List.append_of_mem hother
    have hreg := (h front other (back ++ round :: after) (by simp)).mem_paths_of_mem hp
    exact ⟨other, hother, hsame.paths_perm.mem_iff.1 hreg, hp⟩
  · rintro ⟨other, hother, -, hp⟩
    exact ⟨other, hother, hp⟩

/-- An order is found in a registry wherever it is found in another one of the same files, and by
the same rounds. -/
theorem SameWiring.peeling_eq (hsame : r.SameWiring r') (h : r.order = .ok order) :
    r'.peeling = ⟨r.peeling.rounds.map fun round => round.wave.inRegistry r', []⟩ := by
  have hrounds := r.roundSequence_peeling.transfer hsame
  refine Stage.start.peel_eq_of_followsOn (by simpa [RoundSequence] using hrounds) fun m hm => ?_
  have hpath : m.path ∈ r.paths := hsame.paths_perm.mem_iff.2 (path_mem_paths hm)
  obtain ⟨n, hn, heq⟩ := mem_paths.1 hpath
  have hmem : n ∈ order := (order_perm h).mem_iff.2 hn
  rw [(order_eq_ok_iff.1 h).2] at hmem
  obtain ⟨round, hround, hn⟩ := List.mem_flatMap.1 hmem
  have hleft : m.path ∈ round.paths := heq ▸ Round.path_mem_paths hn
  simp only [List.mem_flatMap, List.mem_map, exists_exists_and_eq_and, mem_paths_inRegistry,
    Round.mem_wave_paths]
  exact ⟨round, hround, path_mem_paths hm, hleft⟩

theorem SameWiring.exists_order (hsame : r.SameWiring r') (h : ∃ order, r.order = .ok order) :
    ∃ order, r'.order = .ok order := by
  obtain ⟨order, horder⟩ := h
  exact ⟨_, order_eq_ok_iff.2 ⟨by rw [hsame.peeling_eq horder], rfl⟩⟩

/-- Waves that hold each path of a registry once. -/
structure Partition (r : Registry) (waves : List Wave) : Prop where
  nonempty : ∀ w ∈ waves, w.paths.Nonempty
  disjoint : waves.Pairwise fun v w => Disjoint v.paths w.paths
  mem_iff : ∀ p, p ∈ r.paths ↔ ∃ w ∈ waves, p ∈ w.paths

theorem partition_waves (h : r.order = .ok order) :
    r.Partition (r.peeling.rounds.map Round.wave) := by
  have hperm := (order_perm h).map Node.path
  rw [(order_eq_ok_iff.1 h).2, Peeling.map_path_order] at hperm
  have hfollows : ∀ round ∈ r.peeling.rounds, ∃ emitted, r.FollowsOn emitted round := by
    intro round hround
    obtain ⟨before, after, hsplit⟩ := List.append_of_mem hround
    exact ⟨_, r.roundSequence_peeling before round after hsplit⟩
  refine ⟨?_, ?_, ?_⟩
  · rintro w hw
    obtain ⟨round, hround, rfl⟩ := List.mem_map.1 hw
    obtain ⟨emitted, hfollows⟩ := hfollows round hround
    obtain ⟨n, hn⟩ := List.exists_mem_of_ne_nil _ hfollows.members_ne_nil
    exact ⟨n.path, Round.mem_wave_paths.2 (Round.path_mem_paths hn)⟩
  · rw [List.pairwise_map]
    have hnodup : (r.peeling.rounds.flatMap Round.paths).Nodup :=
      hperm.nodup_iff.2 r.nodup_paths
    refine (List.nodup_flatMap.1 hnodup).2.imp fun hdisjoint => ?_
    rw [Finset.disjoint_left]
    intro p hp hq
    exact hdisjoint (Round.mem_wave_paths.1 hp) (Round.mem_wave_paths.1 hq)
  · intro p
    rw [show p ∈ r.paths ↔ _ from hperm.mem_iff.symm]
    simp

/-- An order that lists waves one after another, each of them a round of the registry. -/
structure ListedBy (r : Registry) (waves : List Wave) (order : List Node) : Prop where
  sequence : r.RoundSequence (waves.map (Wave.inRegistry r))
  order_eq : order = (waves.map (Wave.inRegistry r)).flatMap Round.members

theorem SameWiring.listedBy (hsame : r.SameWiring r') (h : r.order = .ok order)
    (h' : r'.order = .ok order') : r'.ListedBy (r.peeling.rounds.map Round.wave) order' := by
  have hrounds : (r.peeling.rounds.map Round.wave).map (Wave.inRegistry r') =
      r'.peeling.rounds := by
    rw [hsame.peeling_eq h, List.map_map]
    rfl
  refine ⟨?_, ?_⟩
  · rw [hrounds]
    exact r'.roundSequence_peeling
  · rw [hrounds, (order_eq_ok_iff.1 h').2, Peeling.order]

/-! ### Levelled again -/

/-- Files sorted into parts that share no path stand so already when they are sorted again. -/
theorem flatMap_filter_flatMap_filter
    (hdisjoint : waves.Pairwise fun v w => Disjoint v.paths w.paths) (nodes : List Node) :
    (waves.flatMap fun w =>
      (waves.flatMap fun v => nodes.filter fun n => n.path ∈ v.paths).filter
        fun n => n.path ∈ w.paths) =
      waves.flatMap fun w => nodes.filter fun n => n.path ∈ w.paths := by
  refine List.flatMap_congr fun w hw => ?_
  obtain ⟨front, back, rfl⟩ := List.append_of_mem hw
  obtain ⟨-, hback, hfront⟩ := List.pairwise_append.1 hdisjoint
  have hother : ∀ parts : List Wave, (∀ v ∈ parts, Disjoint v.paths w.paths) →
      (parts.flatMap fun v => nodes.filter fun n => n.path ∈ v.paths).filter
        (fun n => n.path ∈ w.paths) = [] := by
    intro parts hparts
    rw [List.filter_eq_nil_iff]
    intro n hn hmem
    obtain ⟨v, hv, hn⟩ := List.mem_flatMap.1 hn
    have hpath : n.path ∈ v.paths := by simpa using (List.mem_filter.1 hn).2
    exact Finset.disjoint_left.1 (hparts v hv) hpath (by simpa using hmem)
  rw [List.flatMap_append, List.flatMap_cons, List.filter_append, List.filter_append,
    hother front fun v hv => hfront v hv w List.mem_cons_self,
    hother back fun v hv => ((List.pairwise_cons.1 hback).1 v hv).symm]
  simp

theorem sameWiring_of_level (h : r.order = .ok order)
    (hnodes : leveled.nodes = order.map (withLevel order)) : r.SameWiring leveled := by
  have hwiring : leveled.nodes.map Node.wiring = order.map Node.wiring := by
    rw [hnodes, List.map_map]
    rfl
  rw [SameWiring, hwiring]
  exact ((order_perm h).map _).symm

/-- A levelled registry stands in its own order. -/
theorem order_of_level (h : r.level = .ok leveled) : leveled.order = .ok leveled.nodes := by
  obtain ⟨order, horder, hnodes⟩ := exists_order_of_level h
  have hsame := sameWiring_of_level horder hnodes
  obtain ⟨again, hagain⟩ := hsame.exists_order ⟨order, horder⟩
  have hwaves := partition_waves horder
  have hlisted := (SameWiring.listedBy (.refl _) horder horder).order_eq
  have hlisted' := (hsame.listedBy horder hagain).order_eq
  have hfiles : leveled.nodes = (r.peeling.rounds.map Round.wave).flatMap fun w =>
      (r.nodes.map (withLevel order)).filter fun n => n.path ∈ w.paths := by
    refine hnodes.trans ((congrArg (List.map (withLevel order)) hlisted).trans ?_)
    simp only [List.map_flatMap, List.flatMap_map, Wave.inRegistry, List.filter_map]
    rfl
  have hsorted := flatMap_filter_flatMap_filter hwaves.disjoint (r.nodes.map (withLevel order))
  rw [← hfiles] at hsorted
  rw [hagain, hlisted', ← hsorted]
  simp [List.flatMap_map, Wave.inRegistry]

/-- Levelling a levelled registry changes nothing. -/
theorem level_of_level (h : r.level = .ok leveled) : leveled.level = .ok leveled := by
  obtain ⟨order, horder, hnodes⟩ := exists_order_of_level h
  obtain ⟨again, hagain, hnodes'⟩ := exists_level (order_of_level h)
  have hpaths : leveled.nodes.map Node.path = order.map Node.path := by
    rw [hnodes, List.map_map]
    rfl
  have hfix : withLevel leveled.nodes ∘ withLevel order = withLevel order := by
    funext n
    simp [withLevel, hpaths]
  have hsame : again.nodes = leveled.nodes := by
    calc
      again.nodes = leveled.nodes.map (withLevel leveled.nodes) := hnodes'
      _ = (order.map (withLevel order)).map (withLevel leveled.nodes) :=
        congrArg (List.map _) hnodes
      _ = leveled.nodes := by rw [List.map_map, hfix, hnodes]
  rw [hagain, Registry.ext hsame]

/-- Registries with the same paths and requirements in different orders are both ordered or both
not. Where they are, one partition into waves tells both orders, each of which lists the waves one
after another as rounds of its own registry. So a levelled registry is levelled to itself. -/
theorem order_of_same_wiring (hsame : r.SameWiring r') :
    ((∃ order, r.order = .ok order) ↔ ∃ order, r'.order = .ok order) ∧
      (∀ order order', r.order = .ok order → r'.order = .ok order' →
        ∃ waves, r.Partition waves ∧ r.ListedBy waves order ∧ r'.ListedBy waves order') ∧
      ∀ leveled, r.level = .ok leveled →
        leveled.order = .ok leveled.nodes ∧ leveled.level = .ok leveled := by
  refine ⟨⟨hsame.exists_order, hsame.symm.exists_order⟩, ?_, ?_⟩
  · intro order order' h h'
    exact ⟨_, partition_waves h, SameWiring.listedBy (.refl _) h h, hsame.listedBy h h'⟩
  · intro leveled h
    exact ⟨order_of_level h, level_of_level h⟩

/-- The files of the tangle from the last to the first. -/
def tangleReversed : Registry where
  nodes := tangle.nodes.reverse
  nodup_paths := by decide

theorem order_of_tangle_reversed :
    tangle.SameWiring tangleReversed ∧
      ∃ order order' waves leveled, tangle.order = .ok order ∧ tangleReversed.order = .ok order' ∧
        order.map Node.path = [.top "L.sol", .top "B.sol", .top "X.sol", .top "A.sol"] ∧
        order'.map Node.path = [.top "L.sol", .top "X.sol", .top "B.sol", .top "A.sol"] ∧
        tangle.Partition waves ∧ tangle.ListedBy waves order ∧
        tangleReversed.ListedBy waves order' ∧
        tangle.level = .ok leveled ∧ leveled.level = .ok leveled := by
  have hsame : tangle.SameWiring tangleReversed := by
    rw [SameWiring, tangleReversed, List.map_reverse]
    exact (List.reverse_perm _).symm
  have horder : ∃ order, tangle.order = .ok order ∧
      order.map Node.path = [.top "L.sol", .top "B.sol", .top "X.sol", .top "A.sol"] :=
    ⟨_, by cbv, rfl⟩
  have horder' : ∃ order, tangleReversed.order = .ok order ∧
      order.map Node.path = [.top "L.sol", .top "X.sol", .top "B.sol", .top "A.sol"] :=
    ⟨_, by cbv, rfl⟩
  obtain ⟨order, horder, hpaths⟩ := horder
  obtain ⟨order', horder', hpaths'⟩ := horder'
  obtain ⟨leveled, hlevel, -⟩ := exists_level horder
  obtain ⟨-, hwaves, hagain⟩ := order_of_same_wiring hsame
  obtain ⟨waves, hpartition, hlisted, hlisted'⟩ := hwaves order order' horder horder'
  exact ⟨hsame, order, order', waves, leveled, horder, horder', hpaths, hpaths', hpartition,
    hlisted, hlisted', hlevel, (hagain leveled hlevel).2⟩

end Registry

end SolidityFlattener
