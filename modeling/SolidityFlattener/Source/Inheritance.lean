import SolidityFlattener.Source.Scan
import SolidityFlattener.Source.BaseList

/-!
The base types of the first contract or interface that a file declares.

The declaration is looked for line by line, import lines apart; a library before it means that
there are no bases. From the declared name on, the text up to the opening brace is taken, less its
line comments, and what follows the word `is` in it is the list. Block comments are not known here.
-/

namespace SolidityFlattener.Source

/-- What follows a leading keyword and the blanks after it, of which there must be one. -/
def afterKeyword? (word : Text) (t : Text) : Option Text :=
  if word.isPrefixOf t then
    match t.drop word.length with
    | [] => none
    | c :: rest => if Text.isBlank c then some (rest.dropWhile Text.isBlank) else none
  else none

def afterName? : Text → Option Text
  | [] => none
  | c :: rest => if Text.isWord c then some (rest.dropWhile Text.isWord) else none

def declaresLibrary (line : Text) : Bool :=
  ((afterKeyword? "library".toList (line.dropWhile Text.isBlank)).bind afterName?).isSome

/-- What follows the name on a line that declares a contract or an interface. -/
def afterDeclaration? (line : Text) : Option Text :=
  let t := line.dropWhile Text.isBlank
  let t := (afterKeyword? "abstract".toList t).getD t
  ((afterKeyword? "contract".toList t).or (afterKeyword? "interface".toList t)).bind afterName?

/-- The lines from the name of the first declaration on. -/
def fromDeclaration? : List Text → Option (List Text)
  | [] => none
  | l :: rest =>
    if startsImport l then fromDeclaration? rest
    else if declaresLibrary l then none
    else match afterDeclaration? l with
      | some tail => some (tail :: rest)
      | none => fromDeclaration? rest

/-- A line without its comment. -/
def withoutComment (line : Text) : Text := Text.before "//".toList line

/-- The text up to the opening brace, a blank in front of each line of it. -/
def toBrace? : List Text → Option Text
  | [] => none
  | l :: rest =>
    let code := withoutComment l
    if code.contains '\x7b' then some (' ' :: code.takeWhile (· != '\x7b'))
    else (toBrace? rest).map fun more => ' ' :: code ++ more

/-- What follows the first word `is`. The flag tells whether a word can start here. -/
def afterIs? : Bool → Text → Option Text
  | _, [] => none
  | start, 'i' :: 's' :: rest =>
    if start && Text.atWordEnd rest then some rest else afterIs? false ('s' :: rest)
  | _, c :: rest => afterIs? (!Text.isWord c) rest

def bases (text : Text) : List Text :=
  match ((fromDeclaration? text.lines).bind toBrace?).bind (afterIs? true) with
  | some list => baseNames list
  | none => []

/-- How the parts of a file are told apart: the scan of a text and its base types. -/
structure Extractor where
  scan : Text → Scan
  bases : Text → List Text

/-- The extractor that works by lines. -/
def byLines : Extractor := ⟨scan, bases⟩

end SolidityFlattener.Source
