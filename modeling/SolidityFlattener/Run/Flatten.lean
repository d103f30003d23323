import SolidityFlattener.Artifact.Placement
import SolidityFlattener.Imports.Discovery
import SolidityFlattener.Imports.PackageRoot
import SolidityFlattener.Run.CompilerSettings

/-!
One root file flattened: its imports are discovered, ordered and assembled, and the artifacts are
placed and written.

Everything up to the placement only reads the tree (`planFile`), so a failure of the input leaves
the tree as it was. Only the writing that follows can change it.
-/

namespace SolidityFlattener

/-- The package root of a run, by its canonical path. -/
def packageRootOf (t : Tree) (cwd : Location) (o : Options) : Except Fault (Option Path) :=
  match o.packageRoot with
  | some path => (t.realPath false cwd path).map some
  | none => findPackageRoot t cwd (o.baseDir.getD (Path.ofLocation cwd))

/-- The base of labels by its canonical path. It is asked for only where there is something to
label. -/
def labelBase (t : Tree) (cwd : Location) (o : Options) (root : Path) (r : Registry) :
    Except Fault (Option Path) :=
  match o.baseDir with
  | none => .ok none
  | some base =>
    if r.paths.all (· == root) then .ok none else (t.realPath false cwd base).map some

def flattenSource (t : Tree) (cwd : Location) (o : Options) (extractor : Source.Extractor)
    (root : Path) : Trace Bundle := do
  Trace.tell o.weight "- Resolving".toList
  let packageRoot ← Trace.ofExcept ((packageRootOf t cwd o).mapError .system)
  let (path, registry) ← discover ⟨t, cwd, packageRoot⟩ extractor o.resolveWeight root
  Trace.tell o.weight "- Dependency".toList
  Trace.tellAll (registry.peeling.records o.weight)
  let leveled ← Trace.ofExcept registry.level
  match o.newline with
  | none => Trace.fail .notAText
  | some newline => do
    let base ← Trace.ofExcept ((labelBase t cwd o path leveled).mapError .system)
    Trace.ofExcept (Bundle.assemble leveled path newline base)

/-- Where the artifacts of a target go, as given or derived from the file. -/
def placeValue (target : Target) : Except Failure Value :=
  if !target.out.isNull then .ok target.out
  else if target.outAuto.isTruthy then
    match target.outAuto with
    | .string sub => .ok (.ofText (derivedTarget target.file sub.text))
    | _ => .error .notAText
  else .ok (.ofText (derivedTarget target.file []))

def placeText : Value → Except Failure Text
  | .string s => .ok s.text
  | .moment _ => .error .notAPath
  | _ => .error .notAText

/-- What is written for one target, and where. -/
structure Plan where
  place : Placement
  files : List Draft
  /-- The directory that holds the flat text. -/
  result : Path

/-- A line that parts targets in the messages. -/
def separator : Text := List.replicate 60 '='

def planFile (t : Tree) (cwd : Location) (o : Options) (target : Target) : Trace Plan := do
  Trace.tell o.weight separator
  Trace.tell o.weight ("- Loading target ".toList ++ target.shown)
  let bundle ← flattenSource t cwd o Source.byLines target.file
  let out ← Trace.ofExcept (placeValue target)
  let settings ← compilerSettings t cwd o
  let text ← Trace.ofExcept (placeText out)
  let place ← Trace.ofExcept (Placement.ofTarget text o.baseDir)
  let document := bundle.compilerDocument settings o.evmVersion.name
  pure {
    place := place
    files := drafts bundle place document o.flatExtension
    result := (place.file o.flatExtension).parent }

/-- What is told when the artifacts of a target are written. -/
def doneRecords (o : Options) (target : Target) (plan : Plan) : List Record :=
  (plan.files.map fun d =>
    ⟨o.weight, "- ".toList ++ d.kind ++ " to [".toList ++ d.path.text ++ [']']⟩) ++
    [⟨.info, "- flattened [".toList ++ target.file.text ++ [']']⟩, ⟨o.weight, separator⟩]

/-- A target flattened: the tree with its artifacts, and the directory that holds them. -/
def flattenFile (t : Tree) (cwd : Location) (o : Options) (target : Target) : Tree × Trace Path :=
  let plan := planFile t cwd o target
  match plan.outcome with
  -- nothing has been written so far
  | .error failure => (t, ⟨plan.records, .error failure⟩)
  | .ok p =>
    match writeAll t cwd p.place p.files with
    | (written, .ok ()) => (written, ⟨plan.records ++ doneRecords o target p, .ok p.result⟩)
    | (written, .error fault) => (written, ⟨plan.records, .error (.system fault)⟩)

end SolidityFlattener
