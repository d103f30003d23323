import SolidityFlattener.Graph.Rounds
import Mathlib.Data.List.Nodup
import Mathlib.Data.List.Perm.Basic
import Mathlib.Logic.Relation
import Mathlib.Order.WellFoundedSet

/-!
Registered files by their paths, and the two edge relations of a registry.

A path names at most one file of a registry, so a look-up finds the file and nothing else. A change
of one file leaves the paths as they are, and a file under a new path comes last. The edges lead
from a registered file to what it requires, by import or by inheritance; what is required need not
be registered.
-/

namespace SolidityFlattener

/-- A file right below the root. -/
def Path.top (name : String) : Path := ⟨.root, [name.toList]⟩

/-- What a file requires of one kind. -/
def Node.requires (n : Node) : RoundKind → List Path
  | .imports => n.imports
  | .inherits => n.inherits

@[simp] theorem Node.requires_imports (n : Node) : n.requires .imports = n.imports := rfl

@[simp] theorem Node.requires_inherits (n : Node) : n.requires .inherits = n.inherits := rfl

namespace Registry

variable {r : Registry} {n m : Node} {p q : Path} {depth : Int}

/-! ### Looking up -/

theorem mem_paths : p ∈ r.paths ↔ ∃ n ∈ r.nodes, n.path = p := List.mem_map

theorem path_mem_paths (hn : n ∈ r.nodes) : n.path ∈ r.paths := List.mem_map_of_mem hn

theorem eq_of_path_eq (hn : n ∈ r.nodes) (hm : m ∈ r.nodes) (h : n.path = m.path) : n = m :=
  List.inj_on_of_nodup_map r.nodup_paths hn hm h

@[ext] theorem ext {r' : Registry} (h : r.nodes = r'.nodes) : r = r' := by
  cases r
  cases r'
  obtain rfl := h
  rfl

theorem nodup_nodes (r : Registry) : r.nodes.Nodup := r.nodup_paths.of_map

theorem get?_eq_some_iff : r.get? p = some n ↔ n ∈ r.nodes ∧ n.path = p := by
  constructor
  · intro h
    exact ⟨List.mem_of_find?_eq_some h, by simpa using List.find?_some h⟩
  · rintro ⟨hn, rfl⟩
    cases h : r.get? n.path with
    | none => simpa using List.find?_eq_none.1 h n hn
    | some m =>
        have hm := List.mem_of_find?_eq_some h
        have hpath : m.path = n.path := by simpa using List.find?_some h
        rw [eq_of_path_eq hm hn hpath]

theorem get?_path (hn : n ∈ r.nodes) : r.get? n.path = some n := get?_eq_some_iff.2 ⟨hn, rfl⟩

@[simp] theorem contains_iff : r.contains p = true ↔ p ∈ r.paths := by
  simp [contains]

@[simp] theorem nodes_mapNodes (f : Node → Node) (keeps : ∀ n, (f n).path = n.path) :
    (r.mapNodes f keeps).nodes = r.nodes.map f := rfl

@[simp] theorem paths_mapNodes (f : Node → Node) (keeps : ∀ n, (f n).path = n.path) :
    (r.mapNodes f keeps).paths = r.paths := by
  simp [paths, Function.comp_def, keeps]

@[simp] theorem get?_mapNodes (f : Node → Node) (keeps : ∀ n, (f n).path = n.path) :
    (r.mapNodes f keeps).get? p = (r.get? p).map f := by
  have hsame : (fun n : Node => n.path == p) ∘ f = fun n => n.path == p := by
    ext n
    rw [Function.comp_apply, keeps]
  rw [get?, get?, nodes_mapNodes, List.find?_map, hsame]

/-! ### Changing -/

theorem mem_nodes_modify_raiseDepth (h : n ∈ (r.modify p (·.raiseDepth depth)).nodes) :
    n ∈ r.nodes ∨ ∃ m ∈ r.nodes, n = m.raiseDepth depth := by
  obtain ⟨m, hm, rfl⟩ := List.mem_map.1 h
  split
  · exact .inr ⟨m, hm, rfl⟩
  · exact .inl hm

@[simp] theorem paths_modify (f : Node → Node) : (r.modify p f).paths = r.paths := by
  simp only [paths, modify, mapNodes, List.map_map]
  refine List.map_congr_left fun n _ => ?_
  simp only [Function.comp_apply]
  split <;> rfl

@[simp] theorem paths_push (hnew : n.path ∉ r.paths) :
    (r.push n hnew).paths = r.paths ++ [n.path] := by
  simp [paths, push]

theorem add_eq_push (hnew : n.path ∉ r.paths) : r.add n = r.push n hnew := dif_neg hnew

@[simp] theorem nodes_empty_add (n : Node) : (empty.add n).nodes = [n] := by
  rw [add_eq_push (by simp [empty, paths])]
  rfl

theorem raiseDepth?_eq (r : Registry) (p : Path) (depth : Int) :
    r.raiseDepth? p depth =
      if p ∈ r.paths then some (r.modify p (·.raiseDepth depth)) else none := by
  simp [raiseDepth?]

/-! ### Edges -/

/-- A registered file requires a path. -/
def Requires (r : Registry) (kind : RoundKind) (p q : Path) : Prop :=
  ∃ n ∈ r.nodes, n.path = p ∧ q ∈ n.requires kind

/-- All that is required of one kind is registered. -/
def Closed (r : Registry) (kind : RoundKind) : Prop :=
  ∀ n ∈ r.nodes, ∀ p ∈ n.requires kind, p ∈ r.paths

theorem requires_path_iff {kind : RoundKind} (hn : n ∈ r.nodes) :
    r.Requires kind n.path q ↔ q ∈ n.requires kind := by
  constructor
  · rintro ⟨m, hm, hpath, hq⟩
    rwa [← eq_of_path_eq hm hn hpath]
  · intro hq
    exact ⟨n, hn, rfl, hq⟩

end Registry

/-! ### Acyclic relations -/

/-- Nothing leads back to itself; an edge from a path to itself counts as a way back. -/
def Acyclic (edge : Path → Path → Prop) : Prop := ∀ p, ¬Relation.TransGen edge p p

/-- What falls along every edge leaves no way back. -/
theorem Acyclic.of_falls {edge : Path → Path → Prop} (height : Path → ℕ)
    (hfalls : ∀ p q, edge p q → height q < height p) : Acyclic edge := by
  have hway : ∀ p q, Relation.TransGen edge p q → height q < height p := by
    intro p q h
    induction h with
    | single h => exact hfalls _ _ h
    | tail _ h ih => exact (hfalls _ _ h).trans ih
  intro p hp
  exact lt_irrefl _ (hway p p hp)

/-- Among finitely many paths there is one that no edge leads on from. -/
theorem Acyclic.exists_last {edge : Path → Path → Prop} (hacyclic : Acyclic edge)
    {S : Set Path} {paths : List Path} (hS : ∀ p ∈ S, p ∈ paths) (hne : S.Nonempty) :
    ∃ p ∈ S, ∀ q ∈ S, ¬edge p q := by
  have hfinite : S.Finite := paths.finite_toSet.subset hS
  have : IsStrictOrder Path (fun q p => Relation.TransGen edge p q) :=
    { irrefl := hacyclic
      trans := fun _ _ _ hab hbc => hbc.trans hab }
  have hwf : S.WellFoundedOn fun q p => Relation.TransGen edge p q := hfinite.wellFoundedOn
  obtain ⟨s, hs⟩ := hne
  obtain ⟨⟨p, hp⟩, -, hmin⟩ := hwf.has_min Set.univ ⟨⟨s, hs⟩, trivial⟩
  exact ⟨p, hp, fun q hq hedge => hmin ⟨q, hq⟩ trivial (.single hedge)⟩

end SolidityFlattener
