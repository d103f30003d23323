import SolidityFlattener.Tree.Walk

/-!
Reading from a tree and changing it.

A question whether something is a file or a directory has the answer "no" wherever the path leads
nowhere, and fails only on a name that is too long. A file that is written through a link to
nothing comes into being at the link's target. Directories are made from the first missing one on,
and those made before a failure stay.
-/

namespace SolidityFlattener

namespace Text

def le : Text → Text → Bool
  | [], _ => true
  | _ :: _, [] => false
  | a :: as, b :: bs => a < b || (a == b && le as bs)

end Text

namespace Tree

/-- The answer to a question about what a path leads to. -/
def asks (t : Tree) (cwd : Location) (p : Path) (answer : Entry → Bool) : Except Fault Bool :=
  match t.find cwd p with
  | .ok entry => .ok (answer entry)
  -- of all faults only this one is told instead of an answer
  | .error .nameTooLong => .error .nameTooLong
  | .error _ => .ok false

def isFile (t : Tree) (cwd : Location) (p : Path) : Except Fault Bool :=
  t.asks cwd p fun | .file _ => true | _ => false

def isDirectory (t : Tree) (cwd : Location) (p : Path) : Except Fault Bool :=
  t.asks cwd p fun | .directory => true | _ => false

/-- The bytes of a file. -/
def readBytes (t : Tree) (cwd : Location) (p : Path) : Except Fault ByteArray := do
  match ← t.find cwd p with
  | .file content => .ok content
  | .directory => .error .isDirectory
  | .link _ => .error .tooManyLinks

/-- The text of a file, with line feeds for all line breaks. -/
def readText (t : Tree) (cwd : Location) (p : Path) : Except Fault Text := do
  match Text.ofUtf8? (← t.readBytes cwd p) with
  | some text => .ok text.unifyBreaks
  | none => .error .invalidUtf8

/-- The names in a directory, in code point order. -/
def list (t : Tree) (cwd : Location) (p : Path) : Except Fault (List Text) := do
  let place ← t.locate .target cwd p
  match t.lookup place with
  | some .directory => .ok ((t.namesAt place).mergeSort Text.le)
  | some _ => .error .notDirectory
  | none => .error .missing

/-- The tree after a text was written to a file. -/
def write (t : Tree) (cwd : Location) (p : Path) (text : Text) : Except Fault Tree := do
  let place ← t.locate .newFile cwd p
  if t.isDirectoryAt place then .error .isDirectory
  else .ok (t.insert place (.file text.toUtf8))

/-- The tree after one directory was made. -/
def makeDirectory (t : Tree) (cwd : Location) (p : Path) : Except Fault Tree := do
  let place ← t.locate .entry cwd p
  match t.lookup place with
  | some _ => .error .alreadyExists
  | none => .ok (t.insert place .directory)

/-- Making a directory that may exist already. Nothing is said of a parent that is missing. -/
def makeOne (t : Tree) (cwd : Location) (p : Path) : Except Fault Tree :=
  match t.makeDirectory cwd p with
  | .ok made => .ok made
  | .error .missing => .error .missing
  | .error fault =>
    if fault.isOfText then .error fault
    else
      match t.isDirectory cwd p with
      | .ok true => .ok t
      | .ok false => .error fault
      | .error other => .error other

/-- Making a directory and the missing ones above it; the names are given last one first. -/
def makeAll (t : Tree) (cwd : Location) (anchor : Anchor) : List Text → Tree × Except Fault Unit
  | [] =>
    match t.makeOne cwd ⟨anchor, []⟩ with
    | .ok made => (made, .ok ())
    | .error fault => (t, .error fault)
  | name :: above =>
    let p : Path := ⟨anchor, (name :: above).reverse⟩
    match t.makeOne cwd p with
    | .ok made => (made, .ok ())
    | .error .missing =>
      match makeAll t cwd anchor above with
      | (t, .error fault) => (t, .error fault)
      | (t, .ok ()) =>
        match t.makeOne cwd p with
        | .ok made => (made, .ok ())
        | .error fault => (t, .error fault)
    | .error fault => (t, .error fault)

/-- The tree after a directory was made, with the missing ones above it where `parents` asks for
them. -/
def makeDirectories (t : Tree) (cwd : Location) (p : Path) (parents : Bool) :
    Tree × Except Fault Unit :=
  if parents then makeAll t cwd p.anchor p.parts.reverse
  else match t.makeOne cwd p with
    | .ok made => (made, .ok ())
    | .error fault => (t, .error fault)

end Tree

end SolidityFlattener
