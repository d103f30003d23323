import SolidityFlattener.Tree.Basic

/-!
Following a path through a tree, in the two ways a system offers.

`Tree.walk` is the way of every access: names are taken one by one, a link in the middle is
followed, `..` leads to the parent of the directory reached, and a walk that meets more than forty
links is given up. Only the last name may stand for nothing.

`Tree.canonical` computes the one name of a place that goes through no link. Its lenient form goes
on where nothing stands, and there `..` removes the name before it. A link is not followed again
while its own target is being followed, so each link that is entered leaves fewer to enter, and a
circle of links is found where it closes.
-/

namespace SolidityFlattener

namespace Path

/-- The location a walk along a path starts from. -/
def origin (p : Path) (cwd : Location) : Location := if p.isAbsolute then [] else cwd

def ofLocation (place : Location) : Path := ⟨.root, place⟩

end Path

namespace Tree

/-- What a walk is for: to reach what stands at its end, to look at the last name itself even where
it is a link, or to make a file there. -/
inductive Aim
  | target
  | entry
  | newFile
deriving DecidableEq, Repr

/-- The names a link's target asks for in turn. A slash at the end is kept as an empty name, which
asks for a directory as `.` does. -/
def targetNames (target : Text) : List Text :=
  let names := (target.splitOn '/').filter (· != [])
  if target.getLast? = some '/' then names ++ [[]] else names

/-- Where the names of a link's target start. -/
def targetOrigin (target : Text) (here : Location) : Location :=
  match target with
  | '/' :: _ => []
  | _ => here

/-- The longest name, in bytes. -/
def nameLimit : Nat := 255

/-- The longest path, in bytes with its end mark. -/
def pathLimit : Nat := 4096

/-- How many links one walk may follow. -/
def linkLimit : Nat := 40

/-- The location that names lead to. No file can be made under a name with a slash after it. -/
def walk (t : Tree) (aim : Aim) (links : Nat) (here : Location) :
    List Text → Except Fault Location
  | [] => .ok here
  | name :: rest =>
    if !t.isDirectoryAt here then .error .notDirectory
    else if name = [] ∨ name = ['.'] then walk t aim links here rest
    else if name = ['.', '.'] then walk t aim links here.dropLast rest
    else if aim = .newFile ∧ rest = [[]] then .error .isDirectory
    else if nameLimit < Text.utf8Size name then .error .nameTooLong
    else match t.lookup (here ++ [name]) with
      -- only the last name may be missing, for what is yet to be made
      | none => if rest.isEmpty then .ok (here ++ [name]) else .error .missing
      | some (.link target) =>
        if rest = [] ∧ aim = .entry then .ok (here ++ [name])
        else match links with
          | 0 => .error .tooManyLinks
          | left + 1 => walk t aim left (targetOrigin target here) (targetNames target ++ rest)
      | some _ => walk t aim links (here ++ [name]) rest
termination_by names => (links, names.length)

/-- The location a path leads to from a working directory. -/
def locate (t : Tree) (aim : Aim) (cwd : Location) (p : Path) : Except Fault Location :=
  if p.text.contains (Char.ofNat 0) then .error (.ofNul p.text)
  else if pathLimit ≤ Text.utf8Size p.text then .error .nameTooLong
  else walk t aim linkLimit (p.origin cwd) p.parts

def find (t : Tree) (cwd : Location) (p : Path) : Except Fault Entry := do
  match t.lookup (← t.locate .target cwd p) with
  | some entry => .ok entry
  | none => .error .missing

/-- The names of a link's target that lead anywhere. -/
def linkNames (target : Text) : List Text := Path.components target

/-- Why a name below a location has no entry. -/
def absence (t : Tree) (here : Location) (name : Text) : Fault :=
  if !t.isDirectoryAt here then .notDirectory
  else if nameLimit < Text.utf8Size name then .nameTooLong
  else .missing

/-- How far the links of a path can be followed: to a location that goes through none, or to a link
that leads back to itself, with the names that come after it as they are written. -/
inductive Reach
  | place (place : Location)
  | circle (link : Location) (rest : List Text)
deriving DecidableEq, Repr

theorem length_erase_lt {α : Type} [BEq α] [LawfulBEq α] {a : α} {as : List α} (h : a ∈ as) :
    (as.erase a).length < as.length := by
  have := List.length_pos_of_mem h
  rw [List.length_erase_of_mem h]
  omega

/-- Where names lead without links; `strict` refuses what does not exist. A link is followed only if
it is untried, which it is not while its own target is being followed. -/
def canonical (t : Tree) (strict : Bool) (untried : List Location) (here : Location) :
    List Text → Except Fault Reach
  | [] => .ok (.place here)
  | name :: rest =>
    if name = ['.', '.'] then canonical t strict untried here.dropLast rest
    else if name.contains (Char.ofNat 0) then .error (.ofNul name)
    else match t.lookup (here ++ [name]) with
      | some (.link target) =>
        if here ++ [name] ∈ untried then
          match canonical t strict (untried.erase (here ++ [name])) (targetOrigin target here)
              (linkNames target) with
          | .error e => .error e
          | .ok (.circle link more) => .ok (.circle link (more ++ rest))
          -- the target is behind, so its link may be met again from here on
          | .ok (.place reached) => canonical t strict untried reached rest
        else .ok (.circle (here ++ [name]) rest)
      | some _ => canonical t strict untried (here ++ [name]) rest
      | none =>
        if strict then .error (t.absence here name)
        else canonical t strict untried (here ++ [name]) rest
termination_by names => (untried.length, names.length)
decreasing_by
  · exact .right _ (by simp)
  · next h => exact .left _ _ (length_erase_lt h)
  · exact .right _ (by simp)
  · exact .right _ (by simp)
  · exact .right _ (by simp)

/-- Names with every `..` taken as the removal of the name before it. -/
def lexical (names : List Text) : Location :=
  names.foldl (fun here name => if name = ['.', '.'] then here.dropLast else here ++ [name]) []

/-- The fault of a path that goes through a circle of links, if an access to it has one. -/
def circleFault (t : Tree) (p : Path) : Option Fault :=
  match t.locate .target [] p with
  | .error .tooManyLinks => some .cyclicLinks
  | .error fault => some fault
  | .ok _ => none

/-- The canonical path of what a path leads to. Where nothing needs to exist, a circle of links is
refused only if the path still goes through it once its `..` are removed. -/
def realPath (t : Tree) (strict : Bool) (cwd : Location) (p : Path) : Except Fault Path := do
  match ← t.canonical strict t.links (p.origin cwd) p.parts with
  | .place place => return Path.ofLocation place
  | .circle link rest =>
    let plain := Path.ofLocation (if strict then link else lexical (link ++ rest))
    -- whether the circle is one is for the system to say
    match t.circleFault plain with
    | none => return plain
    | some fault =>
      if strict || !fault.isOfSystem then .error fault else return plain

end Tree

end SolidityFlattener
