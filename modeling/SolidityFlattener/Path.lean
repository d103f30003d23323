import SolidityFlattener.Text.Basic

/-!
File paths in normal form: where a path starts, and its components.

Repeated and trailing slashes and `.` components carry no meaning and are dropped when a path is
read; `..` is kept, because what it means depends on links. A path with exactly two leading slashes
is kept apart from one with a single slash. Joining an absolute path forgets the path before it.
-/

namespace SolidityFlattener

/-- Where a path starts: at the place it is used from, at the root, or at the root written with two
slashes. -/
inductive Anchor
  | relative
  | root
  | doubled
deriving DecidableEq, Repr

/-- A path. The components of a path that was read hold no slash and are neither empty nor `.`. -/
structure Path where
  anchor : Anchor
  parts : List Text
deriving DecidableEq, Repr

namespace Anchor

def ofText : Text → Anchor
  | '/' :: '/' :: '/' :: _ => root
  | '/' :: '/' :: _ => doubled
  | '/' :: _ => root
  | _ => relative

def text : Anchor → Text
  | relative => []
  | root => ['/']
  | doubled => ['/', '/']

end Anchor

namespace Path

def isComponent (piece : Text) : Bool := piece != [] && piece != ['.']

def components (t : Text) : List Text := (t.splitOn '/').filter isComponent

def ofText (t : Text) : Path := ⟨Anchor.ofText t, components t⟩

/-- The path of nothing but `.`. -/
def here : Path := ⟨.relative, []⟩

def text (p : Path) : Text :=
  if p = here then ['.'] else p.anchor.text ++ ['/'].intercalate p.parts

def isAbsolute (p : Path) : Bool := p.anchor != .relative

/-- The second path as seen from the first. -/
def join (p q : Path) : Path :=
  match q.anchor with
  | .relative => ⟨p.anchor, p.parts ++ q.parts⟩
  | _ => q

def joinText (p : Path) (t : Text) : Path := p.join (ofText t)

def parent (p : Path) : Path := ⟨p.anchor, p.parts.dropLast⟩

/-- The last component, empty where there is none. -/
def name (p : Path) : Text := p.parts.getLastD []

/-- A name cut before its last dot, unless that dot is its first or its last character. -/
def splitName (name : Text) : Text × Text :=
  let ending := (name.reverse.takeWhile (· != '.')).reverse
  match name.reverse.dropWhile (· != '.') with
  | [] => (name, [])
  | _ :: stem => if stem = [] ∨ ending = [] then (name, []) else (stem.reverse, '.' :: ending)

def stem (p : Path) : Text := (splitName p.name).1

/-- The extension with its dot. -/
def suffix (p : Path) : Text := (splitName p.name).2

/-- The components that lead from one path to another below it. -/
def partsBelow? : List Text → List Text → Option (List Text)
  | [], parts => some parts
  | b :: base, p :: parts => if b = p then partsBelow? base parts else none
  | _ :: _, [] => none

/-- A path as seen from a base that it lies at or below. -/
def relativeTo? (p base : Path) : Option Path :=
  if p.anchor = base.anchor then (partsBelow? base.parts p.parts).map (⟨.relative, ·⟩) else none

end Path

end SolidityFlattener
