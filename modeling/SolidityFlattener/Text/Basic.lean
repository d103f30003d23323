/-!
Text as a list of characters, with the few cuts and searches the rest of the library is written in.

A line ends at a line feed, at a carriage return, or at the pair of both. `Text.unifyBreaks` turns
all three into line feeds, and `Text.lines` cuts there; a text always has at least one line, and no
line holds a break.
-/

namespace SolidityFlattener

abbrev Text := List Char

namespace Text

/-- Every line break written as one line feed. -/
def unifyBreaks : Text → Text
  | [] => []
  | '\r' :: '\n' :: rest => '\n' :: unifyBreaks rest
  | '\r' :: rest => '\n' :: unifyBreaks rest
  | c :: rest => c :: unifyBreaks rest

def lines (t : Text) : List Text := (unifyBreaks t).splitOn '\n'

/-- Whether `part` stands somewhere in a text as one run. -/
def occursIn (part : Text) : Text → Bool
  | [] => part.isEmpty
  | c :: rest => part.isPrefixOf (c :: rest) || occursIn part rest

/-- What is left after removing the longest suffix whose members all satisfy `p`. -/
def dropEndWhile {α : Type} (p : α → Bool) (xs : List α) : List α :=
  (xs.reverse.dropWhile p).reverse

def stripWhile {α : Type} (p : α → Bool) (xs : List α) : List α :=
  dropEndWhile p (xs.dropWhile p)

def forwardSlashes (t : Text) : Text := t.map fun c => if c = '\\' then '/' else c

/-- The text before the first occurrence of `part`, or the whole text where there is none. -/
def before (part : Text) : Text → Text
  | [] => []
  | c :: rest => if part.isPrefixOf (c :: rest) then [] else c :: before part rest

end Text

end SolidityFlattener
