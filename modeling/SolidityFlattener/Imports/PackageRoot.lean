import SolidityFlattener.Tree.Access

/-!
The directory that package imports start from: the nearest `node_modules` at or above a directory.
-/

namespace SolidityFlattener

def packageDirectory : Text := "node_modules".toList

/-- A location and all those above it, from the location up to the root; the names are given last
one first. -/
def upward : List Text → List Location
  | [] => [[]]
  | name :: above => (name :: above).reverse :: upward above

/-- The first package directory at one of some locations, by its canonical path. -/
def firstPackageRoot (t : Tree) (cwd : Location) : List Location → Except Fault (Option Path)
  | [] => .ok none
  | place :: rest => do
    let candidate := Path.ofLocation (place ++ [packageDirectory])
    if ← t.isDirectory cwd candidate then return some (← t.realPath false cwd candidate)
    else firstPackageRoot t cwd rest

def findPackageRoot (t : Tree) (cwd : Location) (start : Path) : Except Fault (Option Path) := do
  let place ← t.realPath false cwd start
  firstPackageRoot t cwd (upward place.parts.reverse)

end SolidityFlattener
