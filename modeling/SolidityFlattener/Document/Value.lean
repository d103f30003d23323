import SolidityFlattener.Decimal.Binary64
import SolidityFlattener.Document.Calendar
import SolidityFlattener.Text.Printable
import SolidityFlattener.Text.Utf8

/-!
Documents: the values that configuration files hold and that artifacts are written from.

An object keeps the order of its fields. A string is a list of code points and not a text, because
an escape can write one half of a surrogate pair alone, which no text holds. Keys are strings in
most documents; YAML admits every value without parts.
-/

namespace SolidityFlattener

/-- A code point: a character, or one half of a surrogate pair, numbered from U+D800. -/
inductive Point
  | scalar (c : Char)
  | half (n : Fin 0x800)
deriving DecidableEq, Repr

namespace Point

def value : Point → Nat
  | scalar c => c.val.toNat
  | half n => 0xD800 + n.val

def ofNat (n : Nat) : Point :=
  if h : 0xD800 ≤ n ∧ n < 0xE000 then half ⟨n - 0xD800, by omega⟩ else scalar (Char.ofNat n)

def char? : Point → Option Char
  | scalar c => some c
  | half _ => none

/-- Whether a point is a half that stands for one byte of a name that is no text, U+DC80 to U+DCFF.
-/
def isByte : Point → Bool
  | scalar _ => false
  | half n => 0x480 ≤ n.val && n.val < 0x500

/-- What stands for a point in a text. Names are texts here, so a byte that is none has the
replacement character; every other half is marked. -/
def chars : Point → Text
  | scalar c => [c]
  | half n => if (half n).isByte then [Char.ofNat 0xFFFD] else Text.halfMark n

end Point

/-- A string of a document. -/
abbrev Points := List Point

namespace Points

def ofText (t : Text) : Points := t.map Point.scalar

/-- The text that a string stands for, unless it holds half a pair. -/
def text? (s : Points) : Option Text := s.mapM Point.char?

/-- The text that a string stands for, with marks for halves. -/
def text (s : Points) : Text := s.flatMap Point.chars

/-- The string that a text stands for, with halves for marks. -/
def ofMarked : Text → Points
  | a :: b :: rest =>
    match Text.markedHalf? a b with
    | some n => .half n :: ofMarked rest
    | none => .scalar a :: ofMarked (b :: rest)
  | t => ofText t

end Points

/-- A value without parts. -/
inductive Scalar
  | null
  | bool (b : Bool)
  | integer (i : Int)
  | number (x : Binary64)
  | string (s : Points)
  | moment (m : Moment)
deriving DecidableEq, Repr

namespace Scalar

def ofText (t : Text) : Scalar := string (Points.ofText t)

/-- The form in which keys are compared: a boolean counts as zero or one, and a number without
fraction as an integer. -/
def keyForm : Scalar → Scalar
  | bool b => integer (if b then 1 else 0)
  | number x => (x.toInt?.map integer).getD (number x)
  | s => s

end Scalar

inductive Value
  | scalar (s : Scalar)
  | array (items : List Value)
  | object (fields : List (Scalar × Value))

/-- Why a text gives no document: it breaks the grammar, a number or date in it does not exist, a
name is none of those that its type has, what is said to be a moment is not written as one, or a
value is of a type that no document has here. -/
inductive ReadFault
  | malformed
  | badNumber
  | badName
  | badMoment
  | unsupported
deriving DecidableEq, Repr

namespace Value

@[match_pattern] abbrev null : Value := scalar .null

@[match_pattern] abbrev bool (b : Bool) : Value := scalar (.bool b)

@[match_pattern] abbrev integer (i : Int) : Value := scalar (.integer i)

@[match_pattern] abbrev number (x : Binary64) : Value := scalar (.number x)

@[match_pattern] abbrev string (s : Points) : Value := scalar (.string s)

@[match_pattern] abbrev moment (m : Moment) : Value := scalar (.moment m)

def ofText (t : Text) : Value := string (Points.ofText t)

/-- A field put into an object's fields. A key that is there keeps its place and takes the new
value. -/
def putField (key : Scalar) (v : Value) : List (Scalar × Value) → List (Scalar × Value)
  | [] => [(key, v)]
  | (k, old) :: rest =>
    if k.keyForm = key.keyForm then (k, v) :: rest else (k, old) :: putField key v rest

/-- The object of fields in the order they were written. -/
def ofFields (fields : List (Scalar × Value)) : Value :=
  object (fields.foldl (fun done f => putField f.1 f.2 done) [])

/-- A field of an object, null where there is none. -/
def field (v : Value) (key : String) : Value :=
  match v with
  | object fields => (fields.lookup (Scalar.ofText key.toList)).getD null
  | _ => null

def isNull : Value → Bool
  | null => true
  | _ => false

/-- Whether a value counts as given: nothing, zero and what is empty do not. -/
def isTruthy : Value → Bool
  | null => false
  | bool b => b
  | integer i => i != 0
  | number x => !x.isZero
  | string s => !s.isEmpty
  | moment _ => true
  | array items => !items.isEmpty
  | object fields => !fields.isEmpty

end Value

end SolidityFlattener
