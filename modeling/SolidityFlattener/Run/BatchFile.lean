import SolidityFlattener.Document.Json.Reader
import SolidityFlattener.Document.Toml.Reader
import SolidityFlattener.Document.Yaml.Reader
import SolidityFlattener.Run.Options
import SolidityFlattener.Text.Lower
import SolidityFlattener.Tree.Access

/-!
Configuration files in JSON, TOML or YAML, and the batch file among them.

The extension tells the format, and YAML is the format of every other file. A batch file lists
targets; paths in it are relative to its directory. What it gives for a place is kept as it is
written there, and is checked only where it is used.
-/

namespace SolidityFlattener

inductive Format
  | json
  | toml
  | yaml
deriving DecidableEq, Repr

namespace Format

def ofPath (p : Path) : Format :=
  let suffix := Text.lower p.suffix
  if suffix = ".json".toList then json
  else if suffix = ".toml".toList then toml
  else yaml

def read : Format → Text → Except ReadFault Value
  | json, t => (Json.read? t).elim (.error .malformed) .ok
  | toml, t => (Toml.read? t).elim (.error .malformed) .ok
  | yaml, t => Yaml.read t

end Format

def readDocument (t : Tree) (cwd : Location) (p : Path) : Except Failure Value :=
  match t.readText cwd p with
  | .error fault =>
    if fault.isOfText then .error (.system fault) else .error (.config (.unreadable p))
  | .ok text =>
    match (Format.ofPath p).read text with
    | .ok v => .ok v
    | .error .malformed => .error (.config (.unparsable p))
    | .error .badNumber => .error .badNumber
    | .error .badName => .error .badName
    | .error .badMoment => .error .badMoment
    | .error .unsupported => .error .unsupported

structure BatchFile where
  targets : List Target
  evmVersion : Value
  packageRoot : Option Path

namespace BatchFile

/-- A value of a document as a path below a directory. -/
def below (base : Path) : Value → Except Failure Path
  | .string s => .ok (base.joinText s.text)
  | _ => .error .notAPath

def targetOf (file base : Path) (index : Nat) (entry : Value) : Except Failure Target := do
  let given := entry.field "file"
  if !given.isTruthy then .error (.config (.targetWithoutFile file index))
  else
    let auto := match entry.field "outAuto" with
      | .bool true => .ofText []
      | v => v
    Target.make (← below base given) (entry.field "out") auto

/-- The targets that the entries from an index on give. -/
def targetsFrom (file base : Path) : Nat → List Value → Except Failure (List Target)
  | _, [] => .ok []
  | index, entry :: rest => do
    let first ← targetOf file base index entry
    return first :: (← targetsFrom file base (index + 1) rest)

def ofDocument (file base : Path) (document : Value) (entries : List Value) :
    Except Failure BatchFile := do
  let targets ← targetsFrom file base 0 entries
  let root := document.field "packageRoot"
  let packageRoot ← if root.isTruthy then (below base root).map some else .ok none
  return ⟨targets, document.field "evmVersion", packageRoot⟩

def load (t : Tree) (cwd : Location) (file : Path) : Except Failure BatchFile := do
  let document ← readDocument t cwd file
  match document.field "targets" with
  | .array entries =>
    let real ← (t.realPath false cwd file).mapError Failure.system
    ofDocument file real.parent document entries
  | _ => .error (.config (.noTargetList file))

end BatchFile

end SolidityFlattener
