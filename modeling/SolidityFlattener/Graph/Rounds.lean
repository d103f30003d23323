import SolidityFlattener.Graph.Registry
import SolidityFlattener.Trace

/-!
The dependency-first order of a registry, found in rounds.

A round takes every pending file whose imports have all been emitted. Where there is none, it takes
those whose inheritance is met instead, which breaks a circle of imports between files that do not
derive from each other. Where there is none of these either, the pending files are stuck.
-/

namespace SolidityFlattener

/-- Which requirements let the members of a round go. -/
inductive RoundKind
  | imports
  | inherits
deriving DecidableEq, Repr

/-- Files that leave together. -/
structure Round where
  kind : RoundKind
  members : List Node
deriving DecidableEq, Repr

namespace Round

def paths (r : Round) : List Path := r.members.map Node.path

end Round

namespace Node

/-- The imports of a file that are not among the emitted ones. -/
def openImports (emitted : List Path) (n : Node) : List Path :=
  n.imports.filter fun p => !emitted.contains p

/-- The inheritance of a file that is not among the emitted ones. -/
def openInherits (emitted : List Path) (n : Node) : List Path :=
  n.inherits.filter fun p => !emitted.contains p

/-- What keeps a file back. -/
def unmet (emitted : List Path) (n : Node) : Unmet :=
  ⟨n.path, n.openImports emitted, n.openInherits emitted⟩

end Node

/-- The next round of the pending files, if one is possible. -/
def nextRound (emitted : List Path) (pending : List Node) : Option Round :=
  let free := pending.filter fun n => (n.openImports emitted).isEmpty
  let loose := pending.filter fun n => (n.openInherits emitted).isEmpty
  if free ≠ [] then some ⟨.imports, free⟩
  else if loose ≠ [] then some ⟨.inherits, loose⟩
  else none

/-- The rounds of a run and the files that it leaves stuck, none where it succeeds. -/
structure Peeling where
  rounds : List Round
  stuck : List Unmet
deriving DecidableEq, Repr

/-- A round has members, and all of them were pending. -/
theorem nextRound_members {emitted : List Path} {pending : List Node} {r : Round}
    (h : nextRound emitted pending = some r) :
    r.members ≠ [] ∧ ∀ n ∈ r.members, n ∈ pending := by
  unfold nextRound at h
  simp only at h
  split at h
  · next hfree =>
    obtain rfl := Option.some.inj h
    exact ⟨hfree, fun n hn => (List.mem_filter.1 hn).1⟩
  · split at h
    · next hloose =>
      obtain rfl := Option.some.inj h
      exact ⟨hloose, fun n hn => (List.mem_filter.1 hn).1⟩
    · cases h

def Round.remaining (r : Round) (pending : List Node) : List Node :=
  pending.filter fun n => !r.paths.contains n.path

theorem Round.length_remaining_lt {emitted : List Path} {pending : List Node} {r : Round}
    (h : nextRound emitted pending = some r) :
    (r.remaining pending).length < pending.length := by
  obtain ⟨hne, hsub⟩ := nextRound_members h
  obtain ⟨n, hn⟩ := List.exists_mem_of_ne_nil _ hne
  refine List.length_filter_lt_length_iff_exists.2 ⟨n, hsub n hn, ?_⟩
  simpa [Round.paths] using ⟨n, hn, rfl⟩

/-- Rounds taken until nothing is pending or nothing can go. -/
def peel (emitted : List Path) (pending : List Node) : Peeling :=
  if pending = [] then ⟨[], []⟩
  else match _h : nextRound emitted pending with
    | none => ⟨[], pending.map (Node.unmet emitted)⟩
    | some r =>
      let rest := peel (emitted ++ r.paths) (r.remaining pending)
      ⟨r :: rest.rounds, rest.stuck⟩
termination_by pending.length
decreasing_by exact Round.length_remaining_lt _h

namespace Peeling

def order (p : Peeling) : List Node := p.rounds.flatMap Round.members

def roundRecords (weight : Weight) (index : Nat) (r : Round) : List Record :=
  let mark := match r.kind with
    | .imports => "      - NoDeps [".toList
    | .inherits => "      - NoInherit [".toList
  ⟨weight, "   - Round [".toList ++ (toString index).toList ++ [']']⟩ ::
    r.members.map fun n => ⟨weight, mark ++ n.file ++ [']']⟩

/-- What is told about a run: its rounds, and the number of the round that failed. -/
def records (weight : Weight) (p : Peeling) : List Record :=
  (p.rounds.zipIdx.flatMap fun x => roundRecords weight x.2 x.1) ++
    if p.stuck = [] then [] else roundRecords weight p.rounds.length ⟨.imports, []⟩

end Peeling

namespace Registry

def peeling (r : Registry) : Peeling := peel [] r.nodes

/-- The files of a registry, dependencies first. -/
def order (r : Registry) : Except Failure (List Node) :=
  match r.peeling.stuck with
  | [] => .ok r.peeling.order
  | stuck => .error (.cyclic stuck)

end Registry

end SolidityFlattener
