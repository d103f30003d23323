import SolidityFlattener.Document.Value

/-!
Documents written as JSON, in ASCII.

Every member stands on a line of its own, and an empty indentation still breaks the lines. Empty
arrays and objects are written without a break.
-/

namespace SolidityFlattener

namespace Points

def unitEscape (n : Nat) : Text := '\\' :: 'u' :: Text.hex 4 n

/-- The two code units of a character above U+FFFF, or the one of any other. -/
def units (n : Nat) : List Nat :=
  if n < 0x10000 then [n] else [0xD800 + (n - 0x10000) / 0x400, 0xDC00 + (n - 0x10000) % 0x400]

/-- One code point inside a JSON string. -/
def jsonPoint (p : Point) : Text :=
  if p = .scalar '"' then ['\\', '"']
  else if p = .scalar '\\' then ['\\', '\\']
  else if p = .scalar '\n' then ['\\', 'n']
  else if p = .scalar '\r' then ['\\', 'r']
  else if p = .scalar '\t' then ['\\', 't']
  else if p = .scalar (Char.ofNat 8) then ['\\', 'b']
  else if p = .scalar (Char.ofNat 12) then ['\\', 'f']
  else if 0x20 ≤ p.value ∧ p.value < 0x7F then [Char.ofNat p.value]
  else (units p.value).flatMap unitEscape

def json (s : Points) : Text := '"' :: s.flatMap jsonPoint ++ ['"']

end Points

namespace Scalar

/-- A number in JSON, with the three names that stand for no finite number. -/
def jsonNumber (x : Binary64) : Text :=
  if x.isNan then "NaN".toList
  else if x.isInfinite then (if x.isNegative then "-Infinity".toList else "Infinity".toList)
  else x.finiteText

/-- A value without parts. A moment has no form of its own and is written as a string. -/
def json : Scalar → Text
  | null => "null".toList
  | bool b => if b then "true".toList else "false".toList
  | integer i => Text.decimalInt i
  | number x => jsonNumber x
  | string s => s.json
  | moment m => (Points.ofText m.text).json

/-- A key, which is always a string. -/
def jsonKey : Scalar → Text
  | string s => s.json
  | moment m => (Points.ofText m.text).json
  | s => '"' :: s.json ++ ['"']

end Scalar

namespace Value

/-- How the members of an array or object are set apart. -/
structure Layout where
  /-- What follows an opening bracket, for members at a given depth. -/
  opening : Nat → Text
  /-- What stands between two members at a given depth. -/
  between : Nat → Text
  /-- What precedes the closing bracket of members at a given depth. -/
  closing : Nat → Text

def breakTo (indent : Text) (depth : Nat) : Text := '\n' :: (List.replicate depth indent).flatten

namespace Layout

def indented (indent : Text) : Layout :=
  ⟨breakTo indent, fun depth => ',' :: breakTo indent depth,
    fun depth => breakTo indent (depth - 1)⟩

end Layout

def bracket (layout : Layout) (depth : Nat) (left right : Char) : List Text → Text
  | [] => [left, right]
  | members =>
    left :: layout.opening depth ++ (layout.between depth).intercalate members ++
      layout.closing depth ++ [right]

mutual

def jsonAt (layout : Layout) (depth : Nat) : Value → Text
  | scalar s => s.json
  | array items => bracket layout (depth + 1) '[' ']' (jsonItems layout (depth + 1) items)
  | object fields =>
    bracket layout (depth + 1) '\x7b' '\x7d' (jsonFields layout (depth + 1) fields)

def jsonItems (layout : Layout) (depth : Nat) : List Value → List Text
  | [] => []
  | v :: rest => jsonAt layout depth v :: jsonItems layout depth rest

def jsonFields (layout : Layout) (depth : Nat) : List (Scalar × Value) → List Text
  | [] => []
  | (k, v) :: rest =>
    (k.jsonKey ++ ": ".toList ++ jsonAt layout depth v) :: jsonFields layout depth rest

end

/-- A document with its members on lines of their own. -/
def json (v : Value) (indent : Text) : Text := jsonAt (.indented indent) 0 v

end Value

end SolidityFlattener
