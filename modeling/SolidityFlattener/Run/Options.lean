import SolidityFlattener.Document.Shown
import SolidityFlattener.Trace
import SolidityFlattener.Tree.Walk

/-!
The options of a run, and the targets it works on.

Options come from a command line, a batch file or a caller. The version of the virtual machine is
checked when they are made, so a run never meets an unknown one.
-/

namespace SolidityFlattener

structure Options where
  packageRoot : Option Path
  evmVersion : EvmVersion
  compilerConfig : Option Path
  /-- The line separator of the artifacts; without one nothing can be assembled. -/
  newline : Option Text
  flatExtension : Text
  silent : Bool
  silentResolve : Bool
  /-- What relative targets are placed under and labels are made relative to. -/
  baseDir : Option Path
deriving DecidableEq, Repr

namespace EvmVersion

def ofValue (v : Value) : Except Failure EvmVersion :=
  let named := match v with
    | .string s => (s.text?).bind ofName?
    | _ => none
  match named with
  | some version => .ok version
  | none => .error (.config (.unknownEvmVersion v.shown))

end EvmVersion

namespace Options

/-- The options used where nothing else is asked, in a working directory. -/
def default (cwd : Location) : Options where
  packageRoot := none
  evmVersion := .paris
  compilerConfig := some (Path.ofText "compiler_config.json".toList)
  newline := some "\r\n".toList
  flatExtension := ".sol".toList
  silent := true
  silentResolve := true
  baseDir := some (Path.ofLocation cwd)

def weight (o : Options) : Weight := if o.silent then .debug else .info

def resolveWeight (o : Options) : Weight := if o.silent || o.silentResolve then .debug else .info

end Options

/-- A root file and where its artifacts go: a target, or the subdirectory of a derived target. Both
are values as a batch file holds them, null where not given. -/
structure Target where
  file : Path
  out : Value
  outAuto : Value

namespace Target

/-- A target with at least one of its two places given. -/
def make (file : Path) (out outAuto : Value) : Except Failure Target :=
  if out.isNull && outAuto.isNull then .error (.config (.targetWithoutPlace file))
  else .ok ⟨file, out, outAuto⟩

def shown (t : Target) : Text :=
  "FlattenTarget(file=PosixPath(".toList ++ t.file.text.quoted ++ "), out=".toList ++
    t.out.inner ++ ", out_auto=".toList ++ t.outAuto.inner ++ [')']

end Target

end SolidityFlattener
