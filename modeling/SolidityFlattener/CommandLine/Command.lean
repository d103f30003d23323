import SolidityFlattener.CommandLine.Arguments
import SolidityFlattener.Imports.RootFiles
import SolidityFlattener.Run.Batch
import SolidityFlattener.Run.BatchFile

/-!
The command: targets from a file, a directory or a batch file, flattened with the options asked for.

What is asked for on the command line goes before what a batch file says. A value that is empty
counts as not given. The command answers zero if every target was flattened and one otherwise.
-/

namespace SolidityFlattener.CommandLine

/-- A value that is not empty. -/
def nonEmpty (t : Option Text) : Option Text := t.filter (· != [])

def given (t : Option Text) : Value := (t.map Value.ofText).getD .null

/-- The least weight of the records that are shown. -/
def threshold (a : Arguments) : Weight :=
  if a.quiet then .error else if 2 < a.verbose then .debug else .info

def shown (a : Arguments) (records : List Record) : List Record :=
  records.filter fun r => (threshold a).rank ≤ r.weight.rank

def directoryTargets (t : Tree) (cwd : Location) (a : Arguments) : Except Failure (List Target) :=
  match a.dir with
  | none => .error .notAPath
  | some dir => do
    let root := Path.ofText dir
    if !(← (t.isDirectory cwd root).mapError .system) then .error (.config (.notADirectory dir))
    else if a.out.isSome then .error (.config .placeForDirectory)
    else if a.outAuto.isNone then .error (.config .directoryWithoutPlace)
    else
      let files ← (rootFiles t cwd .default root).mapError .system
      files.mapM fun file => Target.make file .null (given a.outAuto)

/-- The targets of a command, with what a batch file says of the options. -/
def gather (t : Tree) (cwd : Location) (a : Arguments) : Except Failure BatchFile :=
  match nonEmpty a.batch with
  | some batch =>
    if a.out.isSome || a.outAuto.isSome then .error (.config .placeForBatch)
    else BatchFile.load t cwd (Path.ofText batch)
  | none =>
    match nonEmpty a.file with
    | some file => do
      return ⟨[← Target.make (Path.ofText file) (given a.out) (given a.outAuto)], .null, none⟩
    | none => do return ⟨← directoryTargets t cwd a, .null, none⟩

def optionsOf (cwd : Location) (a : Arguments) (b : BatchFile) : Except Failure Options := do
  let base := Options.default cwd
  let version ← match a.evmVersion, b.evmVersion with
    | some version, _ => .ok version
    | none, .null => .ok base.evmVersion
    | none, v => EvmVersion.ofValue v
  return { base with
    packageRoot := ((nonEmpty a.packageRoot).map Path.ofText).or b.packageRoot
    evmVersion := version
    compilerConfig := ((nonEmpty a.compilerConfig).map Path.ofText).or base.compilerConfig
    newline := some a.newline.text
    silent := a.verbose == 0
    silentResolve := decide (a.verbose < 2) }

def complaint (message : Text) : Record := ⟨.error, "Error: ".toList ++ message⟩

/-- The last line of a command whose batch did not succeed. -/
def summary (r : Report) (targets : List Target) : Record :=
  ⟨.error, Text.decimal r.failed.length ++ " of ".toList ++ Text.decimal targets.length ++
    " target(s) failed: ".toList ++ ", ".toList.intercalate (r.failed.map fun f => f.1.text)⟩

/-- A command run: the tree after it, and its records and status. -/
def run (t : Tree) (cwd : Location) (a : Arguments) : Tree × Trace Nat :=
  let prepared := do
    let gathered ← gather t cwd a
    return (gathered.targets, ← optionsOf cwd a gathered)
  match prepared with
  | .error failure =>
    match failure with
    | .config fault => (t, ⟨[complaint fault.message], .ok 1⟩)
    | _ => (t, ⟨[], .error failure⟩)
  | .ok ([], _) => (t, ⟨[complaint "no source files to flatten".toList], .ok 1⟩)
  | .ok (targets, options) =>
    match batch t cwd options targets with
    | (t, ⟨records, .error failure⟩) => (t, ⟨records, .error failure⟩)
    | (t, ⟨records, .ok report⟩) =>
      if report.ok then (t, ⟨records, .ok 0⟩)
      else (t, ⟨records ++ [summary report targets], .ok 1⟩)

def runShown (t : Tree) (cwd : Location) (a : Arguments) : Tree × Trace Nat :=
  let (after, trace) := run t cwd a
  (after, { trace with records := shown a trace.records })

end SolidityFlattener.CommandLine
