import SolidityFlattener.Document.Yaml.Node
import SolidityFlattener.Document.Calendar
import SolidityFlattener.Text.Lower

/-!
What a plain scalar of YAML 1.1 stands for: a boolean, nothing, a number, a moment, or its text.

Integers can be written in base two, eight (after a zero), ten, sixteen and sixty; underscores
between digits do not count. A number with an exponent is one only with a point and a sign.
-/

namespace SolidityFlattener.Yaml

def named? (t : Text) : Option Value :=
  if t ∈ ["yes", "Yes", "YES", "true", "True", "TRUE", "on", "On", "ON"].map String.toList then
    some (.bool true)
  else if t ∈ ["no", "No", "NO", "false", "False", "FALSE", "off", "Off", "OFF"].map String.toList
  then some (.bool false)
  else if t ∈ ["", "~", "null", "Null", "NULL"].map String.toList then some .null
  else none

def booleanOf (t : Text) : Except ReadFault Value :=
  if Text.lower t ∈ ["yes", "true", "on"].map String.toList then .ok (.bool true)
  else if Text.lower t ∈ ["no", "false", "off"].map String.toList then .ok (.bool false)
  else .error .badName

def sign : Text → Bool × Text
  | '-' :: rest => (true, rest)
  | '+' :: rest => (false, rest)
  | t => (false, t)

def signed (negative : Bool) (n : Nat) : Value := .integer (if negative then -(n : Int) else n)

def withoutUnderscores (t : Text) : Text := t.filter (· != '_')

/-- Whether a text is a run of characters of a kind and underscores, and not empty. -/
def isRun (p : Char → Bool) (t : Text) : Bool := t != [] && t.all fun c => p c || c == '_'

/-- Whether a text is a run of digits and underscores that starts with a digit. -/
def isNumeral (t : Text) : Bool := (t.headD ' ').isDigit && isRun Char.isDigit t

/-- Whether a text is one or two digits below sixty. -/
def isSixtieth (t : Text) : Bool :=
  t.all Char.isDigit && (t.length = 1 || (t.length = 2 && t.headD '9' ≤ '5'))

def inBase (base : Nat) (t : Text) : Except ReadFault Nat :=
  match withoutUnderscores t with
  | [] => .error .badNumber
  | ds => match ds.mapM Text.hexValue? with
    | some ns => .ok (Text.ofDigits base ns)
    | none => .error .badNumber

/-- The number of parts in base sixty. -/
def sixties (parts : List Text) : Nat :=
  Text.ofDigits 60 (parts.map fun p => Text.ofDecimal (withoutUnderscores p))

/-- An integer after its sign. -/
def natural? (t : Text) : Option (Except ReadFault Nat) :=
  let isOctal (c : Char) : Bool := '0' ≤ c && c ≤ '7'
  match t with
  | '0' :: 'b' :: ds =>
    if isRun (fun c => c == '0' || c == '1') ds then some (inBase 2 ds) else none
  | '0' :: 'x' :: ds =>
    if isRun (fun c => (Text.hexValue? c).isSome) ds then some (inBase 16 ds) else none
  | ['0'] => some (.ok 0)
  | '0' :: ds => if isRun isOctal ds then some (inBase 8 ('0' :: ds)) else none
  | _ =>
    match t.splitOn ':' with
    | [] => none
    | whole :: parts =>
      if isNumeral whole && parts.all isSixtieth then some (.ok (sixties (whole :: parts)))
      else none

def exponent? : Text → Option Int
  | [] => some 0
  | e :: s :: ds =>
    if (e = 'e' ∨ e = 'E') ∧ (s = '-' ∨ s = '+') ∧ ds ≠ [] ∧ ds.all Char.isDigit then
      some (if s = '-' then -(Text.ofDecimal ds : Int) else Text.ofDecimal ds)
    else none
  | _ => none

/-- A number with a point, after its sign. -/
def fractional? (negative signGiven : Bool) (t : Text) : Option Value :=
  let whole := t.takeWhile (· != '.')
  match t.dropWhile (· != '.') with
  | [] => none
  | _ :: rest =>
    if whole = [] ∧ rest ∈ ["inf", "Inf", "INF"].map String.toList then
      some (.number (.infinity negative))
    else if whole = [] ∧ !signGiven ∧ rest ∈ ["nan", "NaN", "NAN"].map String.toList then
      some (.number .nan)
    else
      let isPlace (c : Char) : Bool := c.isDigit || c == '_'
      let places := withoutUnderscores (rest.takeWhile isPlace)
      let number (digits : Text) (exp : Int) : Value :=
        .number (.ofDecimal negative (Text.ofDecimal digits) (exp - places.length))
      match exponent? (rest.dropWhile isPlace) with
      | none => none
      | some exp =>
        if whole = [] then
          if !signGiven && (rest.headD ' ').isDigit then some (number places exp) else none
        else if isNumeral whole then some (number (withoutUnderscores whole ++ places) exp)
        else match whole.splitOn ':' with
          | first :: more =>
            if rest.all isPlace ∧ isNumeral first ∧ more.all isSixtieth then
              some (number (Text.decimal (sixties (first :: more)) ++ places) 0)
            else none
          | [] => none

def number? (t : Text) : Option (Except ReadFault Value) :=
  let (negative, body) := sign t
  match natural? body with
  | some n => some (n.map (signed negative))
  | none => (fractional? negative (body.length != t.length) body).map .ok

def integerOf (t : Text) : Except ReadFault Value :=
  match number? t with
  | some (.ok (.integer i)) => .ok (.integer i)
  | _ => .error .badNumber

/-- The number with a fraction of a text that must write a number. -/
def fractionalOf (t : Text) : Except ReadFault Value :=
  let (negative, body) := sign (withoutUnderscores t)
  if body ≠ [] ∧ body.all Char.isDigit then
    .ok (.number (.ofDecimal negative (Text.ofDecimal body) 0))
  else match number? t with
    | some (.ok (.number x)) => .ok (.number x)
    | _ => .error .badNumber

def numeral? (low high : Nat) (t : Text) : Option (Nat × Text) :=
  let ds := (t.take high).takeWhile Char.isDigit
  if low ≤ ds.length then some (Text.ofDecimal ds, t.drop ds.length) else none

def mark? (c : Char) : Text → Option Text
  | d :: rest => if c = d then some rest else none
  | [] => none

def isSpace (c : Char) : Bool := c == ' ' || c == '\t'

/-- The distance from universal time at the end of a moment, in minutes where there is one. -/
def offset? (t : Text) : Option (Option Int) :=
  match t.dropWhile isSpace with
  | [] => if t = [] then some none else none
  | ['Z'] => some (some 0)
  | s :: rest =>
    if s = '-' ∨ s = '+' then do
      let (hours, rest) ← numeral? 1 2 rest
      let (minutes, rest) ← match rest with
        | [] => some (0, [])
        | _ => numeral? 2 2 (← mark? ':' rest)
      let distance : Int := hours * 60 + minutes
      if rest = [] then some (some (if s = '-' then -distance else distance)) else none
    else none

/-- Whether a distance from universal time is less than a day. -/
def isOffset (minutes : Option Int) : Bool := minutes.all fun m => m.natAbs < 1440

def moment? (t : Text) : Option (Except ReadFault Value) := do
  let (year, r) ← numeral? 4 4 t
  let (month, r) ← numeral? 1 2 (← mark? '-' r)
  let (day, r) ← numeral? 1 2 (← mark? '-' r)
  let date : Date := ⟨year, month, day⟩
  match r with
  | [] =>
    if t.length = 10 then
      some (if date.isValid then .ok (.moment (.date date)) else .error .badNumber)
    else none
  | c :: rest =>
    let r ← if c = 'T' ∨ c = 't' then some rest
      else if isSpace c then some (rest.dropWhile isSpace) else none
    let (hour, r) ← numeral? 1 2 r
    let (minute, r) ← numeral? 2 2 (← mark? ':' r)
    let (second, r) ← numeral? 2 2 (← mark? ':' r)
    let (digits, r) := match r with
      | '.' :: rest => (rest.takeWhile Char.isDigit, rest.dropWhile Char.isDigit)
      | _ => ([], r)
    let off ← offset? r
    let time : TimeOfDay := ⟨hour, minute, second, TimeOfDay.microOf digits⟩
    some <| if date.isValid && time.isValid && isOffset off then
        .ok (.moment (.dateTime date time off))
      else .error .badNumber

/-- What a plain scalar stands for. Two marks are known only as keys. -/
def plainValue (t : Text) : Except ReadFault Value :=
  match named? t with
  | some v => .ok v
  | none =>
    if t = ['<', '<'] ∨ t = ['='] then .error .malformed
    else match (number? t).or (moment? t) with
      | some v => v
      | none => .ok (.ofText t)

end SolidityFlattener.Yaml
