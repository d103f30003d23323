import SolidityFlattener.Imports.Candidate
import SolidityFlattener.Source.Inheritance
import SolidityFlattener.Graph.Registry
import SolidityFlattener.Text.Hex

/-!
All files that a root imports, directly or not.

Files are taken breadth-first from a queue. Each is read once, when it is first met; a file that is
met again only has its depth raised. A file enters the queue when it is registered, and only files
of the tree are registered, so the search ends after as many rounds as the tree has entries.
-/

namespace SolidityFlattener

/-- A file read and told into its parts, with its imports resolved. A file that is no text counts
as an import that leads nowhere. -/
def loadNode (site : Site) (extractor : Source.Extractor) (path : Path) (depth : Int) :
    Except Failure Node :=
  match site.tree.readText site.cwd path with
  | .error fault =>
    if fault.isOfText then .error (.system fault)
    else .error (.unresolved path.text none (some path))
  | .ok text =>
    let scan := extractor.scan text
    let bare : Node :=
      { Node.ofPath path with
        header := scan.header, body := scan.body, bases := extractor.bases text, depth := depth }
    scan.specifiers.foldlM
      (fun n specifier => return n.requireImport (← resolveImport site path specifier)) bare

/-- The files registered so far, and those of them whose imports are still to be followed. -/
structure Search where
  registry : Registry
  queue : List Path

namespace Search

/-- One import of a file at a depth: a known file is raised, a new one is loaded and queued. -/
def follow (site : Site) (extractor : Source.Extractor) (weight : Weight) (depth : Int)
    (s : Search) (target : Path) : Trace Search :=
  match s.registry.raiseDepth? target (depth + 1) with
  | some raised => pure { s with registry := raised }
  | none => do
    Trace.tell weight ("      - import [".toList ++ target.name ++ "] at depth ".toList ++
      Text.decimalInt (depth + 1))
    let child ← Trace.ofExcept (loadNode site extractor target (depth + 1))
    pure ⟨s.registry.add child, s.queue ++ [child.path]⟩

/-- All imports of the file under a path. -/
def visit (site : Site) (extractor : Source.Extractor) (weight : Weight) (s : Search)
    (path : Path) : Trace Search := do
  Trace.tell weight ("   - Resolving [".toList ++ path.text ++ [']'])
  match s.registry.get? path with
  | none => pure s
  | some n => n.imports.foldlM (follow site extractor weight n.depth) s

/-- Visits until the queue is empty. -/
def run (site : Site) (extractor : Source.Extractor) (weight : Weight) :
    Nat → Search → Trace Registry
  | 0, s => pure s.registry
  | rounds + 1, s =>
    match s.queue with
    | [] => pure s.registry
    | path :: rest => do
      let next ← visit site extractor weight { s with queue := rest } path
      run site extractor weight rounds next

end Search

/-- The canonical path of a root and the registry of all files that it imports, in the order they
were found, with inheritance linked. -/
def discover (site : Site) (extractor : Source.Extractor) (weight : Weight) (root : Path) :
    Trace (Path × Registry) := do
  let path ← Trace.ofExcept <|
    (site.tree.realPath true site.cwd root).mapError <|
      unresolvedOr (.unresolved root.text none (some root))
  let node ← Trace.ofExcept (loadNode site extractor path 0)
  let start : Search := ⟨Registry.empty.add node, [path]⟩
  let registry ← Search.run site extractor weight (site.tree.entries.length + 1) start
  pure (path, registry.linkInheritance)

end SolidityFlattener
