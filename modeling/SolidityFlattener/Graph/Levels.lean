import SolidityFlattener.Graph.Rounds

/-!
Levels: the number of a file in its registry's order, counted down to one.

What is emitted first has the highest level, so a dependency stands above what depends on it.

Levels can also be assigned in place. They are written one by one before the files are put in
order, so a registry that refused the order would be left with the levels written.
-/

namespace SolidityFlattener

/-- The level of a path in an order: the order's length for the first, one for the last. -/
def levelIn (order : List Path) (path : Path) : Int := order.length - order.idxOf path

namespace Registry

/-- The registry with the levels of an order written to its files. -/
def writeLevels (r : Registry) (order : List Path) : Registry :=
  r.mapNodes (fun n => { n with level := some (levelIn order n.path) }) fun _ => rfl

def level (r : Registry) : Except Failure Registry := do
  let order ← r.order
  let paths := order.map Node.path
  (r.writeLevels paths).reorder paths

/-- Levels written to the files under some paths one after another, counted down. -/
def writeDown (r : Registry) (level : Int) : List Path → Registry
  | [] => r
  | path :: rest =>
    (r.modify path fun n => { n with level := some level }).writeDown (level - 1) rest

/-- What a registry holds once levels were assigned in place, and the files in their new order or
why there is none. -/
def assignLevels (r : Registry) : Registry × Except Failure (List Node) :=
  match r.order with
  | .error failure => (r, .error failure)
  | .ok order =>
    let paths := order.map Node.path
    let written := r.writeDown order.length paths
    match written.reorder paths with
    | .error failure => (written, .error failure)
    | .ok reordered => (reordered, .ok reordered.nodes)

/-- The files by rising level, dependents first. All of them must have one. -/
def byLevel (r : Registry) : Except Failure (List Node) :=
  match (r.nodes.filter fun n => n.level.isNone).map Node.file with
  | [] => .ok (r.nodes.mergeSort fun a b => a.level.getD 0 ≤ b.level.getD 0)
  | files => .error (.unleveled files)

end Registry

end SolidityFlattener
