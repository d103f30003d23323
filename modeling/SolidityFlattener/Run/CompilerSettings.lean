import SolidityFlattener.Run.Options
import SolidityFlattener.Document.Json.Reader
import SolidityFlattener.Tree.Access

/-!
The settings that replace the default ones in compiler input documents: the object under `settings`
in the compiler configuration file.

A file that is not there gives none. One that cannot be read, that is no JSON or that holds
something else there gives none either, with a warning.
-/

namespace SolidityFlattener

/-- The path of the compiler configuration, where one is asked for. -/
def compilerConfigPath (o : Options) : Except Failure (Option Path) :=
  match o.compilerConfig with
  | none => .ok none
  | some path =>
    if path.isAbsolute then .ok (some path)
    else match o.baseDir with
      | some base => .ok (some (base.join path))
      | none => .error .notAPath

/-- Why settings are not taken from a file that is there. -/
inductive SettingsFault
  | undecodable
  | unparsable
  | notAnObject
  | settingsNotAnObject
deriving DecidableEq, Repr

namespace SettingsFault

def cause : SettingsFault → Text
  | undecodable => "UnicodeDecodeError".toList
  | unparsable => "JSONDecodeError".toList
  | notAnObject => "AttributeError".toList
  | settingsNotAnObject => "'settings' is not an object".toList

end SettingsFault

def settingsOfText (t : Text) : Except SettingsFault (Option Value) :=
  match Json.read? t with
  | none => .error .unparsable
  | some document =>
    match document with
    | .object _ =>
      match document.field "settings" with
      | .null => .ok none
      | .object fields => .ok (some (.object fields))
      | _ => .error .settingsNotAnObject
    | _ => .error .notAnObject

def settingsOfFile (t : Tree) (cwd : Location) (path : Path) :
    Except SettingsFault (Option Value) :=
  match t.readText cwd path with
  | .ok text => settingsOfText text
  | .error _ => .error .undecodable

/-- The settings of a run, if the configuration gives any. -/
def compilerSettings (t : Tree) (cwd : Location) (o : Options) : Trace (Option Value) := do
  match ← Trace.ofExcept (compilerConfigPath o) with
  | none => pure none
  | some path =>
    if ← Trace.ofExcept ((t.isFile cwd path).mapError .system) then
      match settingsOfFile t cwd path with
      | .ok settings => pure settings
      | .error fault => do
        Trace.tell .warning
          ("Ignoring compiler config ".toList ++ path.text ++ ": ".toList ++ fault.cause)
        pure none
    else pure none

end SolidityFlattener
