import SolidityFlattener.Source.Statement

/-!
What a file contributes: the targets of its import statements, its header lines and its body.

Each line outside the statements is a header line or a body line. The body is cleared of the blank
lines at both ends and keeps those inside; a target that is named again counts once.
-/

namespace SolidityFlattener.Source

/-- The marks of the licence line and of the compiler version line. -/
def headerMarks : List Text := ["SPDX-License".toList, "pragma solidity".toList]

def isHeaderLine (line : Text) : Bool := headerMarks.any fun mark => Text.occursIn mark line

/-- What a file contributes. -/
structure Scan where
  specifiers : List Text
  header : List Text
  body : List Text
deriving DecidableEq, Repr

namespace Piece

def line? : Piece → Option Text
  | line l => some l
  | statement _ => none

def target? : Piece → Option Text
  | line _ => none
  | statement lines => (specifier? lines.flatten).filter (· != [])

end Piece

def Scan.ofPieces (ps : List Piece) : Scan :=
  let singles := ps.filterMap Piece.line?
  { specifiers := (ps.filterMap Piece.target?).eraseDups
    header := singles.filter isHeaderLine
    body := Text.stripWhile Text.isBlankLine (singles.filter fun l => !isHeaderLine l) }

def scan (text : Text) : Scan := Scan.ofPieces (pieces text.lines)

end SolidityFlattener.Source
