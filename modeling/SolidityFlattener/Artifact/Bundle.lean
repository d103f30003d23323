import SolidityFlattener.Graph.Levels
import SolidityFlattener.Document.Json.Printer

/-!
The three artifacts of a root file, made from a registry in dependency-first order: the flat text,
the sources for a compiler, and the manifest of the files with their levels.

The flat text holds the header of the root, then the body of every other file under a label, then
the body of the root. A compiler source keeps the header and body of its file, with the imports
written as bare file names.
-/

namespace SolidityFlattener

def joinLines (newline : Text) (lines : List Text) : Text := newline.intercalate lines

/-- The label of a file: its path, as seen from a base directory where it lies below it. -/
def label (base : Option Path) (path : Path) : Text :=
  ((base.bind path.relativeTo?).getD path).text

/-- The blocks of a file other than the root. -/
def dependencyBlocks (newline : Text) (base : Option Path) (n : Node) : List Text :=
  ["//File: [".toList ++ label base n.path ++ [']'], [], joinLines newline n.body, []]

/-- The flat text of a root over files in order. -/
def flatText (root : Node) (files : List Node) (newline : Text) (base : Option Path) : Text :=
  joinLines newline <|
    [joinLines newline root.header, []] ++
      (files.filter fun n => n.path != root.path).flatMap (dependencyBlocks newline base) ++
      [joinLines newline root.body]

/-- The imports of a file as statements over bare file names. -/
def shortImports (n : Node) (newline : Text) : Text :=
  joinLines newline (n.imports.map fun p => "import \"".toList ++ p.name ++ "\";".toList)

def sourceContent (n : Node) (newline : Text) : Text :=
  (newline ++ newline).intercalate
    [joinLines newline n.header, shortImports n newline, joinLines newline n.body]

/-- What is made for one root. -/
structure Bundle where
  root : Path
  manifest : List (Path × Int)
  flatText : Text
  sources : List (Path × Text)

namespace Bundle

/-- The bundle of a root over a registry that has levels. -/
def assemble (r : Registry) (root : Path) (newline : Text) (base : Option Path) :
    Except Failure Bundle := do
  let ascending ← r.byLevel
  match r.get? root with
  | none => .error .unregistered
  | some node =>
    return {
      root := node.path
      manifest := ascending.map fun n => (n.path, n.level.getD 0)
      flatText := SolidityFlattener.flatText node r.nodes newline base
      sources := r.nodes.map fun n => (n.path, sourceContent n newline) }

def manifestDocument (b : Bundle) : Value :=
  .array <| b.manifest.map fun entry =>
    .object [(.ofText "path".toList, .ofText entry.1.text),
      (.ofText "level".toList, .integer entry.2)]

/-- The settings used where none are given. -/
def defaultSettings (evmVersion : Text) : Value :=
  .object [
    (.ofText "optimizer".toList, .object [
      (.ofText "enabled".toList, .bool true),
      (.ofText "runs".toList, .integer 200)]),
    (.ofText "evmVersion".toList, .ofText evmVersion)]

def compilerDocument (b : Bundle) (settings : Option Value) (evmVersion : Text) : Value :=
  .object [
    (.ofText "language".toList, .ofText "Solidity".toList),
    (.ofText "sources".toList, .object <| b.sources.map fun entry =>
      (.ofText entry.1.text, .object [(.ofText "content".toList, .ofText entry.2)])),
    (.ofText "settings".toList, settings.getD (defaultSettings evmVersion))]

end Bundle

/-- The indentation of written documents. -/
def documentIndent : Text := ['\t']

end SolidityFlattener
