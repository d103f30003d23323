import SolidityFlattener.Failure

/-!
Source files and what they require, collected in the order they were found.

A registry lists each path once. Adding a path again keeps what is registered and only raises its
depth; the order changes through `Registry.reorder` alone, which takes exactly a rearrangement of
what is registered.
-/

namespace SolidityFlattener

/-- A source file: its parts, the canonical paths of the files it imports and of those its types
derive from, how deep it was found, and its place in the order once that is known. -/
structure Node where
  path : Path
  header : List Text
  body : List Text
  imports : List Path
  inherits : List Path
  bases : List Text
  depth : Int
  level : Option Int
deriving DecidableEq, Repr

namespace Node

/-- A file of which only the path is known. -/
def ofPath (path : Path) : Node := ⟨path, [], [], [], [], [], 0, none⟩

def file (n : Node) : Text := n.path.name

def stem (n : Node) : Text := n.path.stem

/-- A requirement noted, unless it is the file itself or already noted. -/
def noteRequirement (self : Path) (target : Path) (noted : List Path) : List Path :=
  if target = self ∨ target ∈ noted then noted else noted ++ [target]

def requireImport (n : Node) (target : Path) : Node :=
  { n with imports := noteRequirement n.path target n.imports }

def requireInherit (n : Node) (target : Path) : Node :=
  { n with inherits := noteRequirement n.path target n.inherits }

def raiseDepth (n : Node) (depth : Int) : Node := { n with depth := max n.depth depth }

end Node

/-- The files found so far, in order. -/
structure Registry where
  nodes : List Node
  nodup_paths : (nodes.map Node.path).Nodup
deriving DecidableEq, Repr

namespace Registry

def empty : Registry := ⟨[], .nil⟩

def paths (r : Registry) : List Path := r.nodes.map Node.path

def size (r : Registry) : Nat := r.nodes.length

def get? (r : Registry) (path : Path) : Option Node := r.nodes.find? fun n => n.path == path

def contains (r : Registry) (path : Path) : Bool := r.paths.contains path

/-- A change of every file that leaves its path. -/
def mapNodes (r : Registry) (f : Node → Node) (keeps : ∀ n, (f n).path = n.path) : Registry where
  nodes := r.nodes.map f
  nodup_paths := by simpa [Function.comp_def, keeps] using r.nodup_paths

/-- A change of the file under one path, which it keeps. -/
def modify (r : Registry) (path : Path) (f : Node → Node) : Registry :=
  r.mapNodes (fun n => if n.path = path then { f n with path := n.path } else n) fun n => by
    split <;> rfl

/-- One more file, under a path that is new. -/
def push (r : Registry) (n : Node) (isNew : n.path ∉ r.paths) : Registry where
  nodes := r.nodes ++ [n]
  nodup_paths := by
    rw [List.map_append]
    exact List.nodup_append.2
      ⟨r.nodup_paths, by simp, fun p hp q hq => by grind [Registry.paths]⟩

/-- A file registered; one that is there already is kept at the deeper of the two depths. -/
def add (r : Registry) (n : Node) : Registry :=
  if h : n.path ∈ r.paths then r.modify n.path (·.raiseDepth n.depth) else r.push n h

/-- The depth of a registered file raised, never lowered. -/
def raiseDepth? (r : Registry) (path : Path) (depth : Int) : Option Registry :=
  if r.contains path then some (r.modify path (·.raiseDepth depth)) else none

def withStem (r : Registry) (stem : Text) : List Node := r.nodes.filter fun n => n.stem == stem

/-- Looking up registered paths gives files with these paths. -/
theorem map_path_filterMap_get? (r : Registry) {order : List Path} (h : ∀ p ∈ order, p ∈ r.paths) :
    (order.filterMap r.get?).map Node.path = order := by
  induction order with
  | nil => rfl
  | cons p rest ih =>
    have rest_eq := ih fun q hq => h q (List.mem_cons_of_mem _ hq)
    cases found : r.get? p with
    | none =>
      obtain ⟨n, hn, rfl⟩ := List.mem_map.1 (h p List.mem_cons_self)
      simpa using List.find?_eq_none.1 found n hn
    | some n =>
      have path_eq : n.path = p := by simpa using List.find?_some found
      simp [found, path_eq, rest_eq]

/-- The registry in another order, given as paths. -/
def reorder (r : Registry) (order : List Path) : Except Failure Registry :=
  if h : order.Perm r.paths then
    .ok {
      nodes := order.filterMap r.get?
      nodup_paths := by
        rw [r.map_path_filterMap_get? fun p hp => h.mem_iff.1 hp]
        exact h.nodup_iff.2 r.nodup_paths }
  else .error .notAReordering

/-- The files that could be meant by base names, name by name. -/
def matching (r : Registry) (bases : List Text) : List Path :=
  (bases.flatMap r.withStem).map Node.path

/-- A file with the files of its bases noted. -/
def linkNode (r : Registry) (n : Node) : Node :=
  { n with
    inherits := (r.matching n.bases).foldl
      (fun noted target => Node.noteRequirement n.path target noted) n.inherits }

def linkInheritance (r : Registry) : Registry := r.mapNodes r.linkNode fun _ => rfl

/-- How many imports are noted in all. -/
def edgeCount (r : Registry) : Nat :=
  r.nodes.foldl (fun count n => count + n.imports.length) 0

def summary (r : Registry) : Text :=
  "DependencyRegistry(nodes=".toList ++ (toString r.size).toList ++ ", edges=".toList ++
    (toString r.edgeCount).toList ++ [')']

end Registry

end SolidityFlattener
