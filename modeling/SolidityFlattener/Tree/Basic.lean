import SolidityFlattener.Path
import SolidityFlattener.Text.Utf8

/-!
A file tree as a value: what stands at each location.

A location is the list of names that leads to it from the root, without links and without `..`.
The root is always a directory; every other location holds what the tree lists for it.
-/

namespace SolidityFlattener

/-- A place in a tree, named from the root down. -/
abbrev Location := List Text

/-- What can stand at a location. The target of a link is kept as it was written. -/
inductive Entry
  | file (content : ByteArray)
  | directory
  | link (target : Text)

/-- What stands where, the root apart. -/
structure Tree where
  entries : List (Location × Entry)

/-- Why a tree does not answer. -/
inductive Fault
  | missing
  | notDirectory
  | isDirectory
  | alreadyExists
  | tooManyLinks
  | nameTooLong
  | cyclicLinks
  | invalidUtf8
  | nulInPath
  | unencodable
deriving DecidableEq, Repr

namespace Fault

/-- Whether a fault is one of the text of a path, found before the system is asked. -/
def isOfText : Fault → Bool
  | nulInPath | unencodable => true
  | _ => false

/-- Whether a fault is one that the system answers with, and not one found before it is asked or by
following links. -/
def isOfSystem : Fault → Bool
  | cyclicLinks | nulInPath | unencodable => false
  | _ => true

/-- Why a text with a null character is no path. The text is encoded before it is looked through. -/
def ofNul (t : Text) : Fault := if t.holdsHalf then unencodable else nulInPath

end Fault

namespace Tree

def empty : Tree := ⟨[]⟩

def lookup (t : Tree) (place : Location) : Option Entry :=
  if place = [] then some .directory else t.entries.lookup place

def isDirectoryAt (t : Tree) (place : Location) : Bool :=
  match t.lookup place with
  | some .directory => true
  | _ => false

/-- One entry put at a location, in the place of what stood there. -/
def put (place : Location) (entry : Entry) : List (Location × Entry) → List (Location × Entry)
  | [] => [(place, entry)]
  | (other, old) :: rest =>
    if other = place then (place, entry) :: rest else (other, old) :: put place entry rest

def insert (t : Tree) (place : Location) (entry : Entry) : Tree := ⟨put place entry t.entries⟩

/-- Every directory on the way to a location, made where nothing stands. -/
def insertParents (t : Tree) (place : Location) : Tree :=
  (List.range place.length).foldl (fun t n =>
    match t.lookup (place.take n) with
    | none => t.insert (place.take n) .directory
    | some _ => t) t

def links (t : Tree) : List Location :=
  (t.entries.filter fun e => match e.2 with | .link _ => true | _ => false).map Prod.fst

def namesAt (t : Tree) (place : Location) : List Text :=
  t.entries.filterMap fun e =>
    match e.1.reverse with
    | [] => none
    | name :: above => if above.reverse = place then some name else none

end Tree

end SolidityFlattener
