import SolidityFlattener.Proofs.Graph.Levels
import SolidityFlattener.Proofs.Graph.Rounds

/-!
Where a file may stand before what it imports.

A round by inheritance asks nothing of imports, and it takes files that only lead to a circle of
imports as well as those on one. So a file can leave while one that it imports is still pending.
That is the only way in which an import can come to stand behind its importer, and it needs a
circle of imports that the imported file leads to.
-/

namespace SolidityFlattener

/-- Two members of a list without duplicates stand in a sublist as they stand in the list. -/
theorem idxOf_lt_idxOf_iff_of_sublist {α : Type} [DecidableEq α] {a b : α} {part whole : List α}
    (hsub : part.Sublist whole) (hnodup : whole.Nodup) (ha : a ∈ part) (hb : b ∈ part) :
    part.idxOf a < part.idxOf b ↔ whole.idxOf a < whole.idxOf b := by
  induction hsub with
  | slnil => simp at ha
  | @cons part whole c hsub ih =>
      obtain ⟨hnot, hnodup⟩ := List.nodup_cons.1 hnodup
      have hne : ∀ d ∈ part, c ≠ d := fun d hd heq => hnot (heq ▸ hsub.subset hd)
      rw [List.idxOf_cons_ne _ (hne a ha), List.idxOf_cons_ne _ (hne b hb), ih hnodup ha hb]
      omega
  | @cons_cons part whole c hsub ih =>
      obtain ⟨-, hnodup⟩ := List.nodup_cons.1 hnodup
      by_cases hac : c = a
      · subst hac
        by_cases hbc : c = b
        · simp [hbc]
        · simp [List.idxOf_cons_ne _ hbc]
      · by_cases hbc : c = b
        · simp [hbc]
        · have ha := (List.mem_cons.1 ha).resolve_left (Ne.symm hac)
          have hb := (List.mem_cons.1 hb).resolve_left (Ne.symm hbc)
          rw [List.idxOf_cons_ne _ hac, List.idxOf_cons_ne _ hbc, List.idxOf_cons_ne _ hac,
            List.idxOf_cons_ne _ hbc]
          have := ih hnodup ha hb
          omega

namespace Registry

variable {r : Registry} {emitted rest : List Path} {pending order : List Node} {round : Round}
  {n : Node} {p q : Path}

/-- A file leaves by its inheritance while another is still pending, and not behind it in the same
round. -/
def Overtakes (r : Registry) (p q : Path) : Prop :=
  ∃ before round after, r.peeling.rounds = before ++ round :: after ∧ round.kind = .inherits ∧
    p ∈ round.paths ∧ q ∉ before.flatMap Round.paths ∧
    ¬(q ∈ round.paths ∧ r.paths.idxOf q < r.paths.idxOf p)

/-- The files of a round keep their registry order. -/
theorem Stage.sublist_paths (h : r.Stage emitted pending)
    (hround : nextRound emitted pending = some round) : round.paths.Sublist r.paths := by
  rw [Round.paths, (nextRound_eq_some_iff.1 hround).2.1, h.pending_eq]
  exact (List.filter_sublist.trans List.filter_sublist).map _

/-- What stands before a file of a round: all that has been emitted, and what stands before the file
in the round. -/
theorem Stage.idxOf_lt_iff (h : r.Stage emitted pending)
    (hround : nextRound emitted pending = some round) (hp : p ∈ round.paths) :
    (emitted ++ round.paths ++ rest).idxOf q < (emitted ++ round.paths ++ rest).idxOf p ↔
      q ∈ emitted ∨ q ∈ round.paths ∧ r.paths.idxOf q < r.paths.idxOf p := by
  obtain ⟨n, hn, rfl⟩ := List.mem_map.1 hp
  have hpending : n ∈ pending := Round.mem_pending hround hn
  by_cases hq : q ∈ emitted
  · rw [List.append_assoc]
    simp [hq, h.idxOf_lt hq hpending]
  · have hnot : n.path ∉ emitted := (h.mem_pending.1 hpending).2
    rw [List.append_assoc, List.idxOf_append_of_notMem hq, List.idxOf_append_of_notMem hnot,
      List.idxOf_append_of_mem hp]
    by_cases hqround : q ∈ round.paths
    · rw [List.idxOf_append_of_mem hqround]
      have := idxOf_lt_idxOf_iff_of_sublist (h.sublist_paths hround) r.nodup_paths hqround hp
      simp only [hq, hqround, false_or, true_and]
      rw [← this]
      omega
    · rw [List.idxOf_append_of_notMem hqround]
      have := List.idxOf_lt_length_of_mem hp
      simp only [hq, hqround, false_or, false_and, iff_false]
      omega

/-- An import stands before its importer unless the importer overtakes it. -/
theorem idxOf_lt_iff_not_overtakes (h : r.order = .ok order) (hn : n ∈ r.nodes)
    (hq : q ∈ n.imports) :
    (order.map Node.path).idxOf q < (order.map Node.path).idxOf n.path ↔
      ¬r.Overtakes n.path q := by
  obtain ⟨-, rfl⟩ := order_eq_ok_iff.1 h
  constructor
  · rintro hlt ⟨before, round, after, hsplit, -, hp, hnot, hround⟩
    obtain ⟨pending, hstage, hnext, horder⟩ := stage_of_split hsplit
    rw [horder, hstage.idxOf_lt_iff hnext hp] at hlt
    exact hlt.elim hnot hround
  · intro hnot
    obtain ⟨kind, round, hround, rfl, hp⟩ := exists_leaves h (path_mem_paths hn)
    obtain ⟨before, after, hsplit⟩ := List.append_of_mem hround
    obtain ⟨pending, hstage, hnext, horder⟩ := stage_of_split hsplit
    rw [horder, hstage.idxOf_lt_iff hnext hp]
    by_contra hlater
    rw [not_or] at hlater
    refine hnot ⟨before, round, after, hsplit, ?_, hp, hlater.1, hlater.2⟩
    -- a file that leaves by its imports has seen this one go
    cases hkind : round.kind with
    | inherits => rfl
    | imports =>
        have hmet := hstage.met_of_path_mem hnext hn hp
        rw [hkind] at hmet
        exact absurd (hmet q hq) hlater.1

/-- Where no pending file has its imports met, imports lead from each of them to a circle. -/
theorem Stage.exists_circle (h : r.Stage emitted pending) (hclosed : r.Closed .imports)
    (hopen : ∀ n ∈ pending, ¬n.Met .imports emitted) (hq : q ∈ r.paths) (hnot : q ∉ emitted) :
    ∃ c, Relation.ReflTransGen (r.Requires .imports) q c ∧
      Relation.TransGen (r.Requires .imports) c c := by
  by_contra hnone
  simp only [not_exists, not_and] at hnone
  let S : Set Path :=
    {p | Relation.ReflTransGen (r.Requires .imports) q p ∧ p ∈ r.paths ∧ p ∉ emitted}
  -- the imports that lead on from what can be reached have no way back
  have hacyclic : Acyclic fun a b => a ∈ S ∧ r.Requires .imports a b := by
    intro p hp
    obtain ⟨_, ⟨hpS, -⟩, -⟩ := Relation.TransGen.head'_iff.1 hp
    exact hnone p hpS.1 (Relation.TransGen.mono (fun _ _ hedge => hedge.2) _ _ hp)
  have hS : ∀ p ∈ S, p ∈ r.paths := fun p hp => hp.2.1
  obtain ⟨p, hpS, hlast⟩ := hacyclic.exists_last hS ⟨q, .refl, hq, hnot⟩
  obtain ⟨n, hn, rfl⟩ := mem_paths.1 hpS.2.1
  have hunmet := hopen n (h.mem_pending.2 ⟨hn, hpS.2.2⟩)
  simp only [Node.Met, not_forall] at hunmet
  obtain ⟨b, hb, hbnot⟩ := hunmet
  have hedge : r.Requires .imports n.path b := ⟨n, hn, rfl, hb⟩
  exact hlast b ⟨hpS.1.tail hedge, hclosed n hn b hb, hbnot⟩ ⟨hpS, hedge⟩

/-- What is overtaken is no base of the overtaking file and leads to a circle of imports. -/
theorem Overtakes.exists_circle (h : r.Overtakes n.path q) (hclosed : r.Closed .imports)
    (hn : n ∈ r.nodes) (hq : q ∈ n.imports) :
    q ∉ n.inherits ∧ ∃ c, Relation.ReflTransGen (r.Requires .imports) q c ∧
      Relation.TransGen (r.Requires .imports) c c := by
  obtain ⟨before, round, after, hsplit, hkind, hp, hnot, -⟩ := h
  obtain ⟨pending, hstage, hnext, -⟩ := stage_of_split hsplit
  constructor
  · intro hbase
    have hmet := hstage.met_of_path_mem hnext hn hp
    rw [hkind] at hmet
    exact hnot (hmet q hbase)
  · exact hstage.exists_circle hclosed ((nextRound_eq_some_iff.1 hnext).2.2 hkind)
      (hclosed n hn q hq) hnot

/-- Where all imports are registered, an import stands before its importer and above it in level,
unless the importer overtakes it; then it stands behind. What is overtaken is no base of its
importer and leads to a circle of imports. -/
theorem import_stands_first_unless_overtaken (hclosed : r.Closed .imports)
    (h : r.order = .ok order) (hn : n ∈ r.nodes) (hq : q ∈ n.imports) :
    ∃ leveled above below, r.level = .ok leveled ∧ leveled.levelOf q = some above ∧
      leveled.levelOf n.path = some below ∧
      (¬r.Overtakes n.path q →
        (order.map Node.path).idxOf q < (order.map Node.path).idxOf n.path ∧ below < above) ∧
      (r.Overtakes n.path q →
        (order.map Node.path).idxOf n.path ≤ (order.map Node.path).idxOf q ∧ above ≤ below ∧
          q ∉ n.inherits ∧ ∃ c, Relation.ReflTransGen (r.Requires .imports) q c ∧
            Relation.TransGen (r.Requires .imports) c c) := by
  obtain ⟨leveled, hlevel, hnodes⟩ := exists_level h
  have hperm := order_perm h
  have hbefore := idxOf_lt_iff_not_overtakes h hn hq
  refine ⟨leveled, _, _, hlevel, levelOf_eq hperm hnodes (hclosed n hn q hq),
    levelOf_eq hperm hnodes (path_mem_paths hn), ?_, ?_⟩
  · intro hnot
    exact ⟨hbefore.2 hnot, levelIn_lt_iff.2 (hbefore.2 hnot)⟩
  · intro hovertakes
    have hnot := mt hbefore.1 (not_not.2 hovertakes)
    exact ⟨not_lt.1 hnot, not_lt.1 (mt levelIn_lt_iff.1 hnot),
      hovertakes.exists_circle hclosed hn hq⟩

/-- A file that imports one of two files in a circle, which also imports a file without
requirements. -/
def spurRoot : Node := { Node.ofPath (.top "R.sol") with imports := [.top "A.sol"] }

def spurFirst : Node :=
  { Node.ofPath (.top "A.sol") with
    imports := [.top "B.sol", .top "L.sol"], inherits := [.top "B.sol"] }

def spurSecond : Node := { Node.ofPath (.top "B.sol") with imports := [.top "A.sol"] }

def spur : Registry where
  nodes := [spurRoot, spurFirst, spurSecond, Node.ofPath (.top "L.sol")]
  nodup_paths := by decide

theorem closed_spur : spur.Closed .imports := by
  unfold Closed
  decide

theorem order_spur :
    spur.order = .ok [Node.ofPath (.top "L.sol"), spurRoot, spurSecond, spurFirst] := by
  cbv

theorem spur_library_stands_first :
    (spur.Closed .imports ∧ spurFirst ∈ spur.nodes ∧ Path.top "L.sol" ∈ spurFirst.imports) ∧
      ∃ leveled above below, spur.level = .ok leveled ∧
        leveled.levelOf (.top "L.sol") = some above ∧
        leveled.levelOf (.top "A.sol") = some below ∧ below < above := by
  have hmem : spurFirst ∈ spur.nodes := by decide
  have himport : Path.top "L.sol" ∈ spurFirst.imports := by decide
  obtain ⟨leveled, above, below, hlevel, habove, hbelow, hfirst, hlast⟩ :=
    import_stands_first_unless_overtaken closed_spur order_spur hmem himport
  refine ⟨⟨closed_spur, hmem, himport⟩, leveled, above, below, hlevel, habove, hbelow, ?_⟩
  by_cases hovertakes : spur.Overtakes spurFirst.path (.top "L.sol")
  · exact absurd (hlast hovertakes).1 (by decide)
  · exact (hfirst hovertakes).2

theorem not_imported_spurRoot (p : Path) : ¬spur.Requires .imports p spurRoot.path := by
  rintro ⟨n, hn, -, hq⟩
  revert n
  decide

/-- The file outside the circle leaves together with the second file of it, and so before the first,
which it imports without a way back. -/
theorem spur_importer_stands_first :
    spur.Closed .imports ∧ spur.Requires .imports spurRoot.path spurFirst.path ∧
      ¬Relation.TransGen (spur.Requires .imports) spurFirst.path spurRoot.path ∧
      (∃ order, spur.order = .ok order ∧
        (order.map Node.path).idxOf spurRoot.path < (order.map Node.path).idxOf spurFirst.path) ∧
      ∃ leveled, spur.level = .ok leveled ∧ leveled.levelOf spurRoot.path = some 3 ∧
        leveled.levelOf spurFirst.path = some 1 := by
  refine ⟨closed_spur, ⟨spurRoot, by decide, rfl, by decide⟩, ?_, ⟨_, order_spur, by decide⟩, ?_⟩
  · intro hway
    obtain ⟨p, -, hedge⟩ := Relation.TransGen.tail'_iff.1 hway
    exact not_imported_spurRoot p hedge
  · obtain ⟨leveled, hlevel, hnodes⟩ := exists_level order_spur
    have hperm := order_perm order_spur
    refine ⟨leveled, hlevel, ?_, ?_⟩
    · rw [levelOf_eq hperm hnodes (by decide)]
      decide
    · rw [levelOf_eq hperm hnodes (by decide)]
      decide

end Registry

end SolidityFlattener
