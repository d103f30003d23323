import SolidityFlattener.Run.Flatten

/-!
Targets flattened one after another.

Nothing is shared between targets but the tree. A failure that belongs to a target is noted and the
next target is taken; any other ends the batch.
-/

namespace SolidityFlattener

/-- The targets done with their directories, and those that failed. -/
structure Report where
  flattened : List (Path × Path)
  failed : List (Path × Failure)

namespace Report

def empty : Report := ⟨[], []⟩

def ok (r : Report) : Bool := r.failed.isEmpty

end Report

def failureRecords (target : Target) (failure : Failure) : List Record :=
  [⟨.error, "ERROR: failed to flatten [".toList ++ target.file.text ++ [']']⟩,
    ⟨.error, failure.message⟩]

def batchFrom (cwd : Location) (o : Options) : Tree → Report → List Target → Tree × Trace Report
  | t, report, [] => (t, ⟨[], .ok report⟩)
  | t, report, target :: rest =>
    match flattenFile t cwd o target with
    | (t, ⟨records, .ok directory⟩) =>
      let (t, after) := batchFrom cwd o t
        { report with flattened := report.flattened ++ [(target.file, directory)] } rest
      (t, { after with records := records ++ after.records })
    | (t, ⟨records, .error failure⟩) =>
      if failure.isOfTarget then
        let (t, after) := batchFrom cwd o t
          { report with failed := report.failed ++ [(target.file, failure)] } rest
        (t, { after with records := records ++ failureRecords target failure ++ after.records })
      -- what is not the fault of the target alone ends the batch
      else (t, ⟨records, .error failure⟩)

def batch (t : Tree) (cwd : Location) (o : Options) (targets : List Target) : Tree × Trace Report :=
  batchFrom cwd o t .empty targets

end SolidityFlattener
