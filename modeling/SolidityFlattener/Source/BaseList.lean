import SolidityFlattener.Text.Blank

/-!
The names in a list of base types.

Commas outside parentheses part the list; what stands in parentheses is dropped, and blanks are
dropped everywhere. A closing parenthesis too many is ignored.
-/

namespace SolidityFlattener.Source

/-- Where a walk along a list stands: how many parentheses are open, the piece under way and the
pieces before it. -/
structure ListCursor where
  depth : Nat
  current : Text
  done : List Text
deriving DecidableEq, Repr

namespace ListCursor

def start : ListCursor := ⟨0, [], []⟩

def step (s : ListCursor) (c : Char) : ListCursor :=
  if c = '(' then { s with depth := s.depth + 1 }
  else if c = ')' then { s with depth := s.depth - 1 }
  else if s.depth = 0 then
    if c = ',' then { s with current := [], done := s.done ++ [s.current] }
    else { s with current := s.current ++ [c] }
  else s

/-- All pieces, the last one included. -/
def pieces (s : ListCursor) : List Text := s.done ++ [s.current]

end ListCursor

/-- A piece without its blanks. -/
def squeeze (t : Text) : Text := t.filter fun c => !Text.isBlank c

def baseNames (t : Text) : List Text :=
  ((t.foldl ListCursor.step ListCursor.start).pieces.map squeeze).filter (· != [])

end SolidityFlattener.Source
