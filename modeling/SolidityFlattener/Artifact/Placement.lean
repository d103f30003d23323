import SolidityFlattener.Artifact.Bundle
import SolidityFlattener.Tree.Access

/-!
Where artifacts go: the target `dir/name` stands for the directory `dir/name`, in which the files
are called `name` with an ending each.
-/

namespace SolidityFlattener

/-- The target derived for a root file: the directory `flat`, a subdirectory unless that is empty,
and the file's stem. Slashes of both kinds are cleared from the ends of the subdirectory. -/
def derivedTarget (file : Path) (sub : Text) : Text :=
  let inside := if sub = [] then [] else [Text.stripWhile (fun c => c == '/' || c == '\\') sub]
  ['/'].intercalate ("flat".toList :: inside ++ [file.stem])

/-- Where the artifacts of a target go. -/
structure Placement where
  directory : Path
  name : Text
deriving DecidableEq, Repr

namespace Placement

/-- The placement of a target, below a base directory unless the target is absolute. -/
def ofTarget (out : Text) (base : Option Path) : Except Failure Placement :=
  let plain := Text.dropEndWhile (· == '/') (Text.forwardSlashes out)
  let name := (plain.reverse.takeWhile (· != '/')).reverse
  let parent := ((plain.reverse.dropWhile (· != '/')).drop 1).reverse
  if name = [] then .error (.config (.placeWithoutName out))
  else
    let directory :=
      if parent = [] then Path.ofText name else (Path.ofText parent).joinText name
    .ok ⟨if directory.isAbsolute then directory else (base.map (·.join directory)).getD directory,
      name⟩

def file (p : Placement) (ending : Text) : Path := p.directory.joinText (p.name ++ ending)

end Placement

/-- A file to be written: what it is, where it goes, what it holds. -/
structure Draft where
  kind : Text
  path : Path
  text : Text

def drafts (b : Bundle) (place : Placement) (document : Value) (flatExtension : Text) :
    List Draft :=
  [⟨"manifest".toList, place.file ".info.json".toList, b.manifestDocument.json documentIndent⟩,
    ⟨"flat".toList, place.file flatExtension, b.flatText⟩,
    ⟨"compiler_input".toList, place.file ".json".toList, document.json documentIndent⟩]

/-- Drafts written one after another; what was written before a failure stays. -/
def writeDrafts (t : Tree) (cwd : Location) : List Draft → Tree × Except Fault Unit
  | [] => (t, .ok ())
  | d :: rest =>
    match t.write cwd d.path d.text with
    | .ok written => writeDrafts written cwd rest
    | .error fault => (t, .error fault)

/-- The directory of a placement made and the drafts written in it. -/
def writeAll (t : Tree) (cwd : Location) (place : Placement) (files : List Draft) :
    Tree × Except Fault Unit :=
  match t.makeDirectories cwd place.directory true with
  | (made, .ok ()) => writeDrafts made cwd files
  | (made, .error fault) => (made, .error fault)

end SolidityFlattener
