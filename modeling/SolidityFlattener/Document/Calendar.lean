import SolidityFlattener.Text.Hex

/-!
Dates and times of day, checked against the calendar and written in the ISO order.

A moment has two texts: the one that stands for it by itself, and the one that names its parts.
-/

namespace SolidityFlattener

structure Date where
  year : Nat
  month : Nat
  day : Nat
deriving DecidableEq, Repr

/-- A time of day, with millionths of a second. -/
structure TimeOfDay where
  hour : Nat
  minute : Nat
  second : Nat
  micro : Nat
deriving DecidableEq, Repr

namespace Date

def isLeap (year : Nat) : Bool := year % 4 == 0 && (year % 100 != 0 || year % 400 == 0)

/-- The number of days in a month, none for a month that does not exist. -/
def daysIn (year month : Nat) : Nat :=
  if month = 2 then (if isLeap year then 29 else 28)
  else if month ∈ [4, 6, 9, 11] then 30
  else if 1 ≤ month ∧ month ≤ 12 then 31
  else 0

def isValid (d : Date) : Bool :=
  1 ≤ d.year && d.year ≤ 9999 && 1 ≤ d.day && d.day ≤ daysIn d.year d.month

end Date

def padded (width n : Nat) : Text :=
  List.replicate (width - (Text.decimal n).length) '0' ++ Text.decimal n

namespace Date

def text (d : Date) : Text := padded 4 d.year ++ '-' :: padded 2 d.month ++ '-' :: padded 2 d.day

end Date

namespace TimeOfDay

def isValid (t : TimeOfDay) : Bool := t.hour < 24 && t.minute < 60 && t.second < 60

def text (t : TimeOfDay) : Text :=
  padded 2 t.hour ++ ':' :: padded 2 t.minute ++ ':' :: padded 2 t.second ++
    if t.micro = 0 then [] else '.' :: padded 6 t.micro

/-- Millionths of a second from the digits of a fraction; digits beyond the sixth are dropped. -/
def microOf (digits : Text) : Nat :=
  Text.ofDecimal (digits.take 6) * Nat.pow 10 (6 - (digits.take 6).length)

end TimeOfDay

/-- A date, a time of day, or both, with the distance from universal time in minutes where it is
known. -/
inductive Moment
  | date (d : Date)
  | time (t : TimeOfDay)
  | dateTime (d : Date) (t : TimeOfDay) (offset : Option Int)
deriving DecidableEq, Repr

/-- A distance from universal time as written after a time. -/
def offsetText (minutes : Int) : Text :=
  (if minutes < 0 then '-' else '+') ::
    padded 2 (minutes.natAbs / 60) ++ ':' :: padded 2 (minutes.natAbs % 60)

/-- A distance from universal time by its parts: whole days, which may be negative, and seconds. -/
def offsetParts (minutes : Int) : Text :=
  if minutes = 0 then "datetime.timezone.utc".toList
  else
    let days := if minutes < 0 then "days=-1, ".toList else []
    "datetime.timezone(datetime.timedelta(".toList ++ days ++ "seconds=".toList ++
      Text.decimalInt (minutes % 1440 * 60) ++ "))".toList

namespace Moment

/-- The text of a moment by itself. -/
def text : Moment → Text
  | date d => d.text
  | time t => t.text
  | dateTime d t offset => d.text ++ ' ' :: t.text ++ (offset.map offsetText).getD []

/-- The parts of a time of day, without a second and a fraction that are zero. -/
def timeParts (t : TimeOfDay) : List Nat :=
  if t.micro ≠ 0 then [t.hour, t.minute, t.second, t.micro]
  else if t.second ≠ 0 then [t.hour, t.minute, t.second]
  else [t.hour, t.minute]

def named (name : String) (parts : List Text) : Text :=
  "datetime.".toList ++ name.toList ++ '(' :: ", ".toList.intercalate parts ++ [')']

/-- The text of a moment by its parts. -/
def detailed : Moment → Text
  | date d => named "date" ([d.year, d.month, d.day].map Text.decimal)
  | time t => named "time" ((timeParts t).map Text.decimal)
  | dateTime d t offset =>
    named "datetime" <| ([d.year, d.month, d.day] ++ timeParts t).map Text.decimal ++
      (offset.map fun minutes => "tzinfo=".toList ++ offsetParts minutes).toList

end Moment

end SolidityFlattener
