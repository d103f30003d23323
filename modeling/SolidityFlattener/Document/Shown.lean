import SolidityFlattener.Document.Value

/-!
How a value is shown inside a message.

A string by itself is shown as it is. Inside a list or a mapping it is quoted, with single quotes
unless it holds one and no double quote, and what cannot be printed is escaped. A moment is shown
by its parts there.
-/

namespace SolidityFlattener

namespace Points

def quotePoint (quote : Char) (p : Point) : Text :=
  match p with
  | .half _ => '\\' :: 'u' :: Text.hex 4 p.value
  | .scalar c =>
    if c = quote ∨ c = '\\' then ['\\', c]
    else if c = '\t' then ['\\', 't']
    else if c = '\n' then ['\\', 'n']
    else if c = '\r' then ['\\', 'r']
    else if Text.isPrintable c then [c]
    else if p.value < 0x100 then '\\' :: 'x' :: Text.hex 2 p.value
    else if p.value < 0x10000 then '\\' :: 'u' :: Text.hex 4 p.value
    else '\\' :: 'U' :: Text.hex 8 p.value

def quoted (s : Points) : Text :=
  let quote := if s.contains (.scalar '\'') && !s.contains (.scalar '"') then '"' else '\''
  quote :: s.flatMap (quotePoint quote) ++ [quote]

end Points

namespace Text

def quoted (t : Text) : Text := (Points.ofMarked t).quoted

end Text

namespace Scalar

def shownNumber (x : Binary64) : Text :=
  if x.isNan then "nan".toList
  else if x.isInfinite then (if x.isNegative then "-inf".toList else "inf".toList)
  else x.finiteText

/-- A value without parts as shown inside another one. -/
def inner : Scalar → Text
  | null => "None".toList
  | bool b => if b then "True".toList else "False".toList
  | integer i => Text.decimalInt i
  | number x => shownNumber x
  | string s => s.quoted
  | moment m => m.detailed

end Scalar

namespace Value

mutual

def inner : Value → Text
  | scalar s => s.inner
  | array items => '[' :: ", ".toList.intercalate (innerItems items) ++ [']']
  | object fields => '\x7b' :: ", ".toList.intercalate (innerFields fields) ++ ['\x7d']

def innerItems : List Value → List Text
  | [] => []
  | v :: rest => inner v :: innerItems rest

def innerFields : List (Scalar × Value) → List Text
  | [] => []
  | (k, v) :: rest => (k.inner ++ ": ".toList ++ inner v) :: innerFields rest

end

/-- A value as shown by itself. -/
def shown : Value → Text
  | string s => s.text
  | moment m => m.text
  | v => v.inner

end Value

end SolidityFlattener
