import SolidityFlattener.CommandLine.Command

/-!
The program on a real disk.

A command works on a tree that is taken from the disk before it runs: the working directory, the
directories of the paths that the command line names, and the package directories at or above the
working directory, each with all that is below it. The directories and files that the command adds
to the tree are written back afterwards.
-/

namespace SolidityFlattener.Disk

def placeOf (path : String) : Location := Path.components path.toList

def pathOf (place : Location) : String := String.ofList (Path.ofLocation place).text

/-- The canonical path of what a path leads to, if it leads anywhere. -/
def real? (path : String) : IO (Option String) := do
  match ← (IO.FS.realPath path).toBaseIO with
  | .ok found => return some found.toString
  | .error _ => return none

/-- The canonical path of a directory, or of the directory that holds a file. -/
def directoryOf? (path : String) : IO (Option String) := do
  match ← (IO.FS.realPath path).toBaseIO with
  | .ok found =>
    if ← found.isDir then return some found.toString
    else return (found.parent).map toString
  | .error _ => return none

/-- What stands below a directory. A link is taken as one to the place that it leads to in the end,
and what cannot be read is left out. -/
partial def below (directory : String) : IO (List (Location × Entry)) := do
  let .ok here ← (IO.FS.realPath directory).toBaseIO | return []
  let .ok listed ← here.readDir.toBaseIO | return []
  let parts ← listed.toList.mapM fun entry => do
    let path := entry.path.toString
    let place := placeOf path
    match ← entry.path.symlinkMetadata.toBaseIO with
    | .error _ => return []
    | .ok found =>
      match found.type with
      | .dir => return (place, .directory) :: (← below path)
      | .file =>
        match ← (IO.FS.readBinFile entry.path).toBaseIO with
        | .ok content => return [(place, .file content)]
        | .error _ => return []
      | .symlink => return [(place, .link ((← real? path).getD path).toList)]
      | .other => return []
  return parts.flatten

def named (a : CommandLine.Arguments) : List Path :=
  ([a.file, a.batch, a.dir, a.compilerConfig, a.packageRoot].filterMap id).map Path.ofText

/-- The places among some that are not below another one of them. The root itself is never taken as
a whole. -/
def outermost (places : List Location) : List Location :=
  let places := (places.filter (· != [])).eraseDups
  places.filter fun p => !places.any fun q => q != p && q.isPrefixOf p

def snapshot (cwd : Location) (a : CommandLine.Arguments) : IO Tree := do
  let beside := (named a).flatMap fun p => [p, p.parent]
  let packages := (upward cwd.reverse).map fun place =>
    Path.ofLocation (place ++ [packageDirectory])
  let wanted := (beside ++ packages).map fun p => String.ofList p.text
  let found ← wanted.filterMapM directoryOf?
  let places := outermost (cwd :: found.map placeOf)
  let contents ← places.mapM fun place => below (pathOf place)
  let tree := places.foldl
    (fun t place => (t.insertParents place).insert place .directory) Tree.empty
  return ⟨tree.entries ++ contents.flatten⟩

/-- What a command added to a tree, written to the disk. -/
def store (before after : Tree) : IO Unit := do
  for (place, entry) in after.entries do
    match entry, before.lookup place with
    | .directory, none => IO.FS.createDir (pathOf place)
    | .file content, some (.file old) =>
      if content.toList != old.toList then IO.FS.writeBinFile (pathOf place) content
    | .file content, none => IO.FS.writeBinFile (pathOf place) content
    | _, _ => pure ()

def usage : String :=
  "usage: solflat (--file FILE | --batch FILE | --dir DIR) [--out TARGET] [--out-auto [SUB]]\n" ++
    "  [--evm-version VERSION] [--compiler-config FILE] [--package-root DIR]\n" ++
    "  [--newline crlf|lf] [-v | -q]"

end SolidityFlattener.Disk

open SolidityFlattener in
/-- One command, answered with its status. Messages go to the standard error output. -/
def main (args : List String) : IO UInt32 := do
  match CommandLine.parse (args.map String.toList) with
  | .error e => do
    IO.eprintln Disk.usage
    return UInt32.ofNat e.status
  | .ok a => do
    let cwd := Disk.placeOf (← IO.currentDir).toString
    let before ← Disk.snapshot cwd a
    let (after, trace) := CommandLine.runShown before cwd a
    for record in trace.records do
      IO.eprintln (String.ofList record.message)
    Disk.store before after
    match trace.outcome with
    | .ok status => return UInt32.ofNat status
    | .error failure => do
      IO.eprintln (String.ofList failure.message)
      return 1
