import SolidityFlattener.Text.Blank
import SolidityFlattener.Text.Word

/-!
A source file as import statements and single lines.

A statement starts at a line whose first word is `import` and goes on to the first line that holds
a semicolon, or to the end of the file. Nothing else makes or ends a statement, so one that is left
open takes every line after it.
-/

namespace SolidityFlattener.Source

def startsImport (line : Text) : Bool :=
  "import".toList.isPrefixOf line && Text.atWordEnd (line.drop 6)

/-- Whether a line ends the statement that it belongs to. -/
def endsStatement (line : Text) : Bool := line.contains ';'

/-- A statement with all its lines, or a line outside every statement. -/
inductive Piece
  | statement (lines : List Text)
  | line (line : Text)
deriving DecidableEq, Repr

/-- Lines cut into pieces, given the lines of a statement that is still open, if one is. -/
def piecesAfter : Option (List Text) → List Text → List Piece
  | none, [] => []
  | some held, [] => [.statement held]
  | none, l :: rest =>
    if startsImport l then
      if endsStatement l then .statement [l] :: piecesAfter none rest
      else piecesAfter (some [l]) rest
    else .line l :: piecesAfter none rest
  | some held, l :: rest =>
    if endsStatement l then .statement (held ++ [l]) :: piecesAfter none rest
    else piecesAfter (some (held ++ [l])) rest

def pieces (lines : List Text) : List Piece := piecesAfter none lines

/-- The target of an import statement: what stands in its first pair of quotes of either kind, with
slashes for backslashes. -/
def specifier? (statement : Text) : Option Text :=
  let plain := statement.map fun c => if c = '\'' then '"' else c
  match plain.dropWhile (· != '"') with
  | [] => none
  | _ :: rest =>
    if rest.contains '"' then some (Text.forwardSlashes (rest.takeWhile (· != '"'))) else none

end SolidityFlattener.Source
