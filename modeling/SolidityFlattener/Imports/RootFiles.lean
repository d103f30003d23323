import SolidityFlattener.Tree.Access
import SolidityFlattener.Text.Lower

/-!
The source files below a directory, in order.

Directories are listed by name in code point order and entered in place, links to directories
included; some names are never entered. A circle of links ends where a walk through it meets too
many links. No walk is longer than its links and the tree allow, which bounds the descent.
-/

namespace SolidityFlattener

/-- What a listing takes: the extensions of files, the directory names that are not entered, and
how far below the start it goes. -/
structure Selection where
  extensions : List Text
  excluded : List Text
  maxDepth : Option Int

namespace Selection

def defaultExtensions : List Text := [".sol".toList]

def defaultExcluded : List Text :=
  [".git", ".hg", ".svn", "node_modules", "__pycache__", "venv", ".venv", ".idea", ".vscode",
    "artifacts", "cache", "typechain", "typechain-types", "flat", "build", "dist"].map String.toList

def default : Selection := ⟨defaultExtensions, defaultExcluded, none⟩

end Selection

def filesBelow (t : Tree) (cwd : Location) (sel : Selection) :
    Nat → Int → Path → Except Fault (List Path)
  | 0, _, _ => .ok []
  | fuel + 1, depth, directory =>
    if sel.maxDepth.any (· < depth) then .ok []
    else do
      let names ← t.list cwd directory
      let parts ← names.mapM fun name => do
        let entry : Path := ⟨directory.anchor, directory.parts ++ [name]⟩
        if ← t.isDirectory cwd entry then
          if sel.excluded.contains name then return []
          else filesBelow t cwd sel fuel (depth + 1) entry
        else if ← t.isFile cwd entry then
          return if sel.extensions.contains (Text.lower entry.suffix) then [entry] else []
        else return []
      return parts.flatten

def rootFiles (t : Tree) (cwd : Location) (sel : Selection) (root : Path) :
    Except Fault (List Path) := do
  let start ← t.realPath false cwd root
  -- one path follows only so many links, so directories that contain themselves end too
  filesBelow t cwd sel ((t.entries.length + 1) * (Tree.linkLimit + 1) + 1) 0 start

end SolidityFlattener
