import SolidityFlattener.EvmVersion
import SolidityFlattener.Tree.Basic

/-!
Why a run does not end as asked, and how it is told.

Three causes belong to the input of one target and leave the other targets of a batch alone: a
configuration that makes no sense, an import that leads nowhere, and files that depend on each
other in a circle. All others end the run.
-/

namespace SolidityFlattener

inductive ConfigFault
  | unknownEvmVersion (shown : Text)
  | targetWithoutPlace (file : Path)
  | unreadable (file : Path)
  | unparsable (file : Path)
  | noTargetList (file : Path)
  | targetWithoutFile (file : Path) (index : Nat)
  | placeWithoutName (out : Text)
  | notADirectory (given : Text)
  | placeForDirectory
  | directoryWithoutPlace
  | placeForBatch
deriving DecidableEq, Repr

/-- A file that cannot be ordered, with the requirements that are still open. -/
structure Unmet where
  path : Path
  imports : List Path
  inherits : List Path
deriving DecidableEq, Repr

/-- Why a run does not end as asked. -/
inductive Failure
  | config (fault : ConfigFault)
  | unresolved (specifier : Text) (importer candidate : Option Path)
  | cyclic (remaining : List Unmet)
  | unleveled (files : List Text)
  | notAReordering
  | unregistered
  | system (fault : Fault)
  | notAPath
  | notAText
  | badNumber
  | badName
  | badMoment
  | unsupported
deriving DecidableEq, Repr

namespace ConfigFault

def message : ConfigFault → Text
  | unknownEvmVersion shown =>
    "Unknown EVM version '".toList ++ shown ++ "' (expected one of ".toList ++
      ", ".toList.intercalate (EvmVersion.all.map EvmVersion.name) ++ [')']
  | targetWithoutPlace file =>
    "Target '".toList ++ file.text ++ "' needs 'out' or 'outAuto'".toList
  | unreadable file => "Cannot read ".toList ++ file.text
  | unparsable file => "Cannot parse ".toList ++ file.text
  | noTargetList file => file.text ++ ": expected a mapping with a 'targets' list".toList
  | targetWithoutFile file index =>
    file.text ++ ": target #".toList ++ (toString index).toList ++ " needs a 'file' entry".toList
  | placeWithoutName out => "Output target '".toList ++ out ++ "' has no name".toList
  | notADirectory given => '\'' :: given ++ "' is not a directory".toList
  | placeForDirectory => "--out cannot be used with --dir; use --out-auto".toList
  | directoryWithoutPlace => "--dir needs --out-auto".toList
  | placeForBatch =>
    "--out and --out-auto cannot be used with --batch; set them per target".toList

end ConfigFault

/-- The names of files one after another, or a dash for none. -/
def listOrDash (files : List Path) : Text :=
  match ", ".toList.intercalate (files.map Path.name) with
  | [] => ['-']
  | names => names

/-- The three lines told about a file that cannot be ordered. -/
def Unmet.lines (u : Unmet) : List Text :=
  ["  ".toList ++ u.path.text,
    "    imports:  ".toList ++ listOrDash u.imports,
    "    inherits: ".toList ++ listOrDash u.inherits]

namespace Failure

/-- Whether a batch goes on after the failure. -/
def isOfTarget : Failure → Bool
  | config _ | unresolved .. | cyclic _ => true
  | _ => false

/-- The text of a failure. Those that have none of their own are told by their kind alone. -/
def message : Failure → Text
  | config fault => fault.message
  | unresolved specifier importer candidate =>
    "Cannot resolve import '".toList ++ specifier ++ ['\''] ++
      (match importer with
        | some file => " in ".toList ++ file.text
        | none => []) ++
      match candidate with
      | some file => " (tried ".toList ++ file.text ++ [')']
      | none => []
  | cyclic remaining =>
    ['\n'].intercalate ("Cyclic dependency between:".toList :: remaining.flatMap Unmet.lines)
  | unleveled files => "Nodes without level: ".toList ++ ", ".toList.intercalate files
  | notAReordering => "reorder() needs every registered node exactly once".toList
  | _ => []

end Failure

end SolidityFlattener
