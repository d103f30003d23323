import SolidityFlattener.Path
import SolidityFlattener.Trace
import SolidityFlattener.Tree.Access

/-!
Where an import leads.

A target that starts with `@` is looked up in the package root, any other in the directory of the
importing file. The target names an existing file, whose canonical path is the answer, so that all
spellings of one file agree.
-/

namespace SolidityFlattener

/-- What imports are resolved in: a tree, the directory that relative paths start from, and the
directory that package imports start from. -/
structure Site where
  tree : Tree
  cwd : Location
  packageRoot : Option Path

/-- An import target read as a path by its spelling alone; none for a package import without a
package root. -/
def candidate? (source : Path) (specifier : Text) (packageRoot : Option Path) : Option Path :=
  match Text.forwardSlashes specifier with
  | '@' :: rest => packageRoot.map (·.joinText ('@' :: rest))
  | '.' :: '/' :: rest => some (source.parent.joinText rest)
  | t => some (source.parent.joinText t)

/-- The failure of an import whose path cannot be made canonical. -/
def unresolvedOr (failure : Failure) (fault : Fault) : Failure :=
  if fault.isOfSystem then failure else .system fault

/-- The canonical path of an import, given a test for existence. -/
def resolveImportWith (present : Path → Except Fault Bool) (site : Site) (source : Path)
    (specifier : Text) : Except Failure Path :=
  match candidate? source specifier site.packageRoot with
  | none => .error (.unresolved specifier (some source) none)
  | some path =>
    match present path with
    | .error fault => .error (.system fault)
    | .ok false => .error (.unresolved specifier (some source) (some path))
    | .ok true =>
      (site.tree.realPath true site.cwd path).mapError <|
        unresolvedOr (.unresolved specifier (some source) (some path))

/-- The canonical path of the file that an import names. -/
def resolveImport (site : Site) (source : Path) (specifier : Text) : Except Failure Path :=
  resolveImportWith (site.tree.isFile site.cwd) site source specifier

end SolidityFlattener
