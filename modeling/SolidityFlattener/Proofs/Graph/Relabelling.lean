import SolidityFlattener.Proofs.Graph.LevelAssignment
import Mathlib.Data.Set.Function

/-!
Registries whose files stand under other paths.

A run of rounds only compares paths with each other. So where every path is replaced and different
paths stay different, the run is the same under the new paths: the same rounds, the same files left
stuck with the same requirements open, and the same levels along the same order.
-/

namespace SolidityFlattener

variable {ρ : Path → Path} {S : Set Path} {n : Node} {p : Path} {emitted paths : List Path}
  {pending : List Node}

/-! ### Files under other paths -/

namespace Node

/-- A file with its own path and those it requires replaced. -/
def relabel (ρ : Path → Path) (n : Node) : Node :=
  { n with path := ρ n.path, imports := n.imports.map ρ, inherits := n.inherits.map ρ }

@[simp] theorem relabel_path : (n.relabel ρ).path = ρ n.path := rfl

@[simp] theorem relabel_imports : (n.relabel ρ).imports = n.imports.map ρ := rfl

@[simp] theorem relabel_inherits : (n.relabel ρ).inherits = n.inherits.map ρ := rfl

@[simp] theorem relabel_header : (n.relabel ρ).header = n.header := rfl

@[simp] theorem relabel_body : (n.relabel ρ).body = n.body := rfl

@[simp] theorem relabel_level : (n.relabel ρ).level = n.level := rfl

theorem map_path_relabel (nodes : List Node) :
    (nodes.map (relabel ρ)).map path = (nodes.map path).map ρ := by
  simp [Function.comp_def]

/-- The path of a file and those it requires are all in a set. -/
structure Within (S : Set Path) (n : Node) : Prop where
  path : n.path ∈ S
  requires : ∀ kind, ∀ p ∈ n.requires kind, p ∈ S

end Node

/-- What keeps a file back, under other paths. -/
def Unmet.relabel (ρ : Path → Path) (u : Unmet) : Unmet :=
  ⟨ρ u.path, u.imports.map ρ, u.inherits.map ρ⟩

def Round.relabel (ρ : Path → Path) (r : Round) : Round := ⟨r.kind, r.members.map (Node.relabel ρ)⟩

def Peeling.relabel (ρ : Path → Path) (p : Peeling) : Peeling :=
  ⟨p.rounds.map (Round.relabel ρ), p.stuck.map (Unmet.relabel ρ)⟩

/-! ### One round -/

theorem Round.paths_relabel (r : Round) : (r.relabel ρ).paths = r.paths.map ρ :=
  Node.map_path_relabel r.members

theorem mem_map_iff_of_injOn (hinj : Set.InjOn ρ S) (hp : p ∈ S) (hpaths : ∀ q ∈ paths, q ∈ S) :
    ρ p ∈ paths.map ρ ↔ p ∈ paths := by
  constructor
  · intro h
    obtain ⟨q, hq, heq⟩ := List.mem_map.1 h
    exact hinj (hpaths q hq) hp heq ▸ hq
  · exact List.mem_map_of_mem

theorem contains_map_of_injOn (hinj : Set.InjOn ρ S) (hp : p ∈ S) (hpaths : ∀ q ∈ paths, q ∈ S) :
    (paths.map ρ).contains (ρ p) = paths.contains p := by
  rw [Bool.eq_iff_iff, List.contains_iff_mem, List.contains_iff_mem]
  exact mem_map_iff_of_injOn hinj hp hpaths

/-- What is not emitted yet is the same under the new paths. -/
theorem filter_not_emitted_map (hinj : Set.InjOn ρ S) (hpaths : ∀ q ∈ paths, q ∈ S)
    (hemitted : ∀ q ∈ emitted, q ∈ S) :
    (paths.map ρ).filter (fun q => !(emitted.map ρ).contains q) =
      (paths.filter fun q => !emitted.contains q).map ρ := by
  rw [List.filter_map]
  refine congrArg _ (List.filter_congr fun q hq => ?_)
  rw [Function.comp_apply, contains_map_of_injOn hinj (hpaths q hq) hemitted]

namespace Node

theorem openImports_relabel (hinj : Set.InjOn ρ S) (hn : n.Within S)
    (hemitted : ∀ q ∈ emitted, q ∈ S) :
    (n.relabel ρ).openImports (emitted.map ρ) = (n.openImports emitted).map ρ :=
  filter_not_emitted_map hinj (hn.requires .imports) hemitted

theorem openInherits_relabel (hinj : Set.InjOn ρ S) (hn : n.Within S)
    (hemitted : ∀ q ∈ emitted, q ∈ S) :
    (n.relabel ρ).openInherits (emitted.map ρ) = (n.openInherits emitted).map ρ :=
  filter_not_emitted_map hinj (hn.requires .inherits) hemitted

theorem unmet_relabel (hinj : Set.InjOn ρ S) (hn : n.Within S) (hemitted : ∀ q ∈ emitted, q ∈ S) :
    (n.relabel ρ).unmet (emitted.map ρ) = (n.unmet emitted).relabel ρ := by
  simp only [unmet, Unmet.relabel, relabel_path, openImports_relabel hinj hn hemitted,
    openInherits_relabel hinj hn hemitted]

/-- Whether a file may leave does not depend on what the paths are. -/
theorem met_relabel_iff (hinj : Set.InjOn ρ S) (hn : n.Within S) (hemitted : ∀ q ∈ emitted, q ∈ S)
    (kind : RoundKind) : (n.relabel ρ).Met kind (emitted.map ρ) ↔ n.Met kind emitted := by
  have hrequires : (n.relabel ρ).requires kind = (n.requires kind).map ρ := by cases kind <;> rfl
  simp only [Met, hrequires, List.forall_mem_map]
  exact forall₂_congr fun q hq => mem_map_iff_of_injOn hinj (hn.requires kind q hq) hemitted

end Node

theorem RoundKind.takes_relabel (kind : RoundKind) (hinj : Set.InjOn ρ S)
    (hpending : ∀ n ∈ pending, n.Within S) (hemitted : ∀ q ∈ emitted, q ∈ S) :
    kind.takes (emitted.map ρ) (pending.map (Node.relabel ρ)) =
      (kind.takes emitted pending).map (Node.relabel ρ) := by
  rw [takes, takes, List.filter_map]
  refine congrArg _ (List.filter_congr fun n hn => ?_)
  simp only [Function.comp_apply, Node.met_relabel_iff hinj (hpending n hn) hemitted]

theorem nextRound_relabel (hinj : Set.InjOn ρ S) (hpending : ∀ n ∈ pending, n.Within S)
    (hemitted : ∀ q ∈ emitted, q ∈ S) :
    nextRound (emitted.map ρ) (pending.map (Node.relabel ρ)) =
      (nextRound emitted pending).map (Round.relabel ρ) := by
  have htakes := fun kind => RoundKind.takes_relabel kind hinj hpending hemitted
  simp only [nextRound_eq, htakes, ne_eq, List.map_eq_nil_iff]
  split_ifs <;> rfl

theorem Round.remaining_relabel (hinj : Set.InjOn ρ S) (hpending : ∀ n ∈ pending, n.Within S)
    {r : Round} (hr : ∀ q ∈ r.paths, q ∈ S) :
    (r.relabel ρ).remaining (pending.map (Node.relabel ρ)) =
      (r.remaining pending).map (Node.relabel ρ) := by
  rw [remaining, remaining, List.filter_map, paths_relabel]
  refine congrArg _ (List.filter_congr fun n hn => ?_)
  rw [Function.comp_apply, Node.relabel_path,
    contains_map_of_injOn hinj (hpending n hn).path hr]

/-! ### A run of rounds -/

/-- A run goes the same way under other paths, from wherever it starts. -/
theorem peel_relabel (hinj : Set.InjOn ρ S) (hpending : ∀ n ∈ pending, n.Within S)
    (hemitted : ∀ q ∈ emitted, q ∈ S) :
    peel (emitted.map ρ) (pending.map (Node.relabel ρ)) = (peel emitted pending).relabel ρ := by
  fun_induction peel emitted pending with
  | case1 emitted => simp [peel, Peeling.relabel]
  | case2 emitted pending hne hnone =>
      have hnext := nextRound_relabel hinj hpending hemitted
      rw [hnone] at hnext
      rw [peel, if_neg (by simpa using hne)]
      split
      · simp only [Peeling.relabel, List.map_nil, List.map_map, Peeling.mk.injEq, true_and]
        exact List.map_congr_left fun n hn => Node.unmet_relabel hinj (hpending n hn) hemitted
      · next hsome => cases hnext.symm.trans hsome
  | case3 emitted pending hne round hround rest ih =>
      have hmembers : ∀ q ∈ round.paths, q ∈ S := by
        intro q hq
        obtain ⟨n, hn, rfl⟩ := List.mem_map.1 hq
        exact (hpending n (Round.mem_pending hround hn)).path
      have hnext := nextRound_relabel hinj hpending hemitted
      rw [hround] at hnext
      rw [peel, if_neg (by simpa using hne)]
      split
      · next hnone => cases hnext.symm.trans hnone
      · next other hother =>
        obtain rfl : round.relabel ρ = other := Option.some.inj (hnext.symm.trans hother)
        have hrest := ih (fun n hn => hpending n (Round.mem_remaining.1 hn).1)
          (List.forall_mem_append.2 ⟨hemitted, hmembers⟩)
        rw [List.map_append, ← Round.paths_relabel,
          ← Round.remaining_relabel hinj hpending hmembers] at hrest
        simp only [hrest, Peeling.relabel, List.map_cons, rest]

theorem Peeling.order_relabel (p : Peeling) :
    (p.relabel ρ).order = p.order.map (Node.relabel ρ) := by
  simp [order, relabel, Round.relabel, List.map_flatMap, List.flatMap_map]

/-! ### Registries under other paths -/

namespace Registry

variable {r : Registry} {order : List Node}

/-- All paths that a registry names, those of its files and those they require, are in a set. -/
def Within (r : Registry) (S : Set Path) : Prop := ∀ n ∈ r.nodes, n.Within S

theorem Within.injOn_paths (h : r.Within S) (hinj : Set.InjOn ρ S) :
    Set.InjOn ρ {p | p ∈ r.paths} := by
  refine hinj.mono fun p hp => ?_
  obtain ⟨n, hn, rfl⟩ := mem_paths.1 hp
  exact (h n hn).path

/-- A registry with all paths replaced, no two registered ones by the same. -/
def relabel (r : Registry) (ρ : Path → Path) (hinj : Set.InjOn ρ {p | p ∈ r.paths}) : Registry where
  nodes := r.nodes.map (Node.relabel ρ)
  nodup_paths := by
    rw [Node.map_path_relabel]
    exact r.nodup_paths.map_on fun p hp q hq => hinj hp hq

variable {hpaths : Set.InjOn ρ {p | p ∈ r.paths}}

@[simp] theorem nodes_relabel : (r.relabel ρ hpaths).nodes = r.nodes.map (Node.relabel ρ) := rfl

@[simp] theorem paths_relabel : (r.relabel ρ hpaths).paths = r.paths.map ρ :=
  Node.map_path_relabel r.nodes

theorem peeling_relabel (hinj : Set.InjOn ρ S) (h : r.Within S) :
    (r.relabel ρ hpaths).peeling = r.peeling.relabel ρ :=
  peel_relabel hinj h (List.forall_mem_nil _)

theorem order_relabel_of_ok (hinj : Set.InjOn ρ S) (h : r.Within S) (horder : r.order = .ok order) :
    (r.relabel ρ hpaths).order = .ok (order.map (Node.relabel ρ)) := by
  obtain ⟨hstuck, rfl⟩ := order_eq_ok_iff.1 horder
  rw [order_eq_ok_iff, peeling_relabel hinj h]
  exact ⟨by simp [Peeling.relabel, hstuck], (Peeling.order_relabel _).symm⟩

theorem order_relabel_of_cyclic {remaining : List Unmet} (hinj : Set.InjOn ρ S) (h : r.Within S)
    (horder : r.order = .error (.cyclic remaining)) :
    (r.relabel ρ hpaths).order = .error (.cyclic (remaining.map (Unmet.relabel ρ))) := by
  obtain ⟨hstuck, hremaining⟩ := order_eq_error_iff.1 horder
  obtain rfl := Failure.cyclic.inj hremaining
  rw [order_eq_error_iff, peeling_relabel hinj h]
  exact ⟨by simpa [Peeling.relabel] using hstuck, rfl⟩

/-! ### Levels under other paths -/

/-- A path stands where its replacement stands. -/
theorem idxOf_map_of_injOn (hinj : Set.InjOn ρ S) (hp : p ∈ S) (hpaths : ∀ q ∈ paths, q ∈ S) :
    (paths.map ρ).idxOf (ρ p) = paths.idxOf p := by
  induction paths with
  | nil => rfl
  | cons q rest ih =>
      obtain ⟨hq, hrest⟩ := List.forall_mem_cons.1 hpaths
      have hsame : (ρ q == ρ p) = (q == p) := by
        rw [Bool.eq_iff_iff, beq_iff_eq, beq_iff_eq]
        exact hinj.eq_iff hq hp
      rw [List.map_cons, List.idxOf_cons, List.idxOf_cons, hsame, ih hrest]

theorem withLevel_relabel (hinj : Set.InjOn ρ S) (horder : ∀ n ∈ order, n.path ∈ S)
    (hn : n.path ∈ S) :
    withLevel (order.map (Node.relabel ρ)) (n.relabel ρ) = (withLevel order n).relabel ρ := by
  have hidx : ((order.map Node.path).map ρ).idxOf (ρ n.path) = (order.map Node.path).idxOf n.path :=
    idxOf_map_of_injOn hinj hn (by simpa using horder)
  simp only [withLevel, levelIn, Node.map_path_relabel, Node.relabel_path, hidx, List.length_map]
  rfl

/-- Levels assigned in place either fail for a registry and for the same under other paths, with
the same files stuck, or succeed for both, with the same files in the same order at the same
levels. -/
theorem assignLevels_relabel (hinj : Set.InjOn ρ S) (h : r.Within S) :
    (∃ remaining, r.assignLevels = (r, .error (.cyclic remaining)) ∧
      (r.relabel ρ hpaths).assignLevels =
        (r.relabel ρ hpaths, .error (.cyclic (remaining.map (Unmet.relabel ρ))))) ∨
    ∃ leveled, r.assignLevels = (leveled, .ok leveled.nodes) ∧ leveled.Within S ∧
      ∀ hleveled : Set.InjOn ρ {p | p ∈ leveled.paths},
        (r.relabel ρ hpaths).assignLevels =
          (leveled.relabel ρ hleveled, .ok (leveled.nodes.map (Node.relabel ρ))) := by
  cases horder : r.order with
  | error failure =>
      obtain ⟨-, rfl⟩ := order_eq_error_iff.1 horder
      exact .inl ⟨_, assignLevels_of_error horder,
        assignLevels_of_error (order_relabel_of_cyclic hinj h horder)⟩
  | ok order =>
      have hwithin : ∀ n ∈ order, n.Within S := fun n hn => h n ((order_perm horder).mem_iff.1 hn)
      obtain ⟨leveled, hlevel, hassign⟩ := assignLevels_of_ok horder
      obtain ⟨moved, hmoved, hassign'⟩ := assignLevels_of_ok (order_relabel_of_ok hinj h horder)
      have hnodes : leveled.nodes = order.map (withLevel order) := by
        obtain ⟨other, hother, hnodes⟩ := exists_order_of_level hlevel
        rwa [Except.ok.inj (horder.symm.trans hother)]
      have hnodes' : moved.nodes = leveled.nodes.map (Node.relabel ρ) := by
        obtain ⟨other, hother, hnodes'⟩ := exists_order_of_level hmoved
        obtain rfl := Except.ok.inj ((order_relabel_of_ok hinj h horder).symm.trans hother)
        rw [hnodes', hnodes, List.map_map, List.map_map]
        refine List.map_congr_left fun n hn => ?_
        exact withLevel_relabel hinj (fun m hm => (hwithin m hm).path) (hwithin n hn).path
      refine .inr ⟨leveled, hassign, ?_, fun hleveled => ?_⟩
      · intro n hn
        rw [hnodes] at hn
        obtain ⟨m, hm, rfl⟩ := List.mem_map.1 hn
        exact ⟨(hwithin m hm).path, (hwithin m hm).requires⟩
      · obtain rfl : moved = leveled.relabel ρ hleveled := Registry.ext hnodes'
        rw [hassign', hnodes']

end Registry

end SolidityFlattener
