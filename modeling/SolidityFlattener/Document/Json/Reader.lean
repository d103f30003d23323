import SolidityFlattener.Document.Value

/-!
Documents read from JSON.

The grammar is that of the standard, with the names `NaN`, `Infinity` and `-Infinity` besides. A key
that is written twice keeps its first place and its last value. An escape for half a surrogate pair
is read as that half, and two that follow each other and fit as the character they stand for.
A number without fraction and exponent is an integer of any size.
-/

namespace SolidityFlattener

namespace Json

def isSpace (c : Char) : Bool := c == ' ' || c == '\n' || c == '\r' || c == '\t'

def skipSpace (t : Text) : Text := t.dropWhile isSpace

def after? (start : Text) (t : Text) : Option Text :=
  if start.isPrefixOf t then some (t.drop start.length) else none

def unit? : Text → Option (Nat × Text)
  | a :: b :: c :: d :: rest => (Text.ofHex? [a, b, c, d]).map fun n => (n, rest)
  | _ => none

def escaped? (c : Char) : Option Char :=
  if c = '"' ∨ c = '\\' ∨ c = '/' then some c
  else if c = 'b' then some (Char.ofNat 8)
  else if c = 'f' then some (Char.ofNat 12)
  else if c = 'n' then some '\n'
  else if c = 'r' then some '\r'
  else if c = 't' then some '\t'
  else none

def isHigh (n : Nat) : Bool := 0xD800 ≤ n && n < 0xDC00

def isLow (n : Nat) : Bool := 0xDC00 ≤ n && n < 0xE000

/-- The code point of two fitting code units. -/
def joined (high low : Nat) : Nat := 0x10000 + (high - 0xD800) * 0x400 + (low - 0xDC00)

/-- The code point after `\u`, with the second escape taken in where the two fit. -/
def unicode? (t : Text) : Option (Point × Text) :=
  match unit? t with
  | none => none
  | some (n, rest) =>
    match rest with
    | '\\' :: 'u' :: more =>
      match unit? more with
      | some (m, last) =>
        -- a half without its other half stands by itself
        if isHigh n && isLow m then some (.ofNat (joined n m), last) else some (.ofNat n, rest)
      | none => some (.ofNat n, rest)
    | _ => some (.ofNat n, rest)

def point? : Text → Option (Point × Text)
  | '\\' :: 'u' :: rest => unicode? rest
  | '\\' :: c :: rest => (escaped? c).map fun e => (.scalar e, rest)
  | ['\\'] => none
  | c :: rest => if c.val.toNat < 0x20 then none else some (.scalar c, rest)
  | [] => none

/-- A string after its opening quote. -/
def string? : Nat → Text → Option (Points × Text)
  | 0, _ => none
  | _ + 1, '"' :: rest => some ([], rest)
  | fuel + 1, t =>
    match point? t with
    | none => none
    | some (p, rest) => (string? fuel rest).map fun r => (p :: r.1, r.2)

def digits (t : Text) : Text := t.takeWhile Char.isDigit

/-- The digits of an integer: a zero stands alone. -/
def wholeDigits? : Text → Option (Text × Text)
  | '0' :: rest => some (['0'], rest)
  | t => if digits t = [] then none else some (digits t, t.dropWhile Char.isDigit)

/-- The digits of a fraction, none where there is no fraction. -/
def fraction (t : Text) : Text × Text :=
  match t with
  | '.' :: rest => if digits rest = [] then ([], t) else (digits rest, rest.dropWhile Char.isDigit)
  | _ => ([], t)

def exponent (t : Text) : Option Int × Text :=
  match t with
  | e :: rest =>
    if e = 'e' ∨ e = 'E' then
      let (negative, body) := match rest with
        | '-' :: r => (true, r)
        | '+' :: r => (false, r)
        | r => (false, r)
      if digits body = [] then (none, t)
      else
        let size : Int := Text.ofDecimal (digits body)
        (some (if negative then -size else size), body.dropWhile Char.isDigit)
    else (none, t)
  | [] => (none, t)

/-- A number after its sign. -/
def unsigned? (negative : Bool) (t : Text) : Option (Value × Text) :=
  (wholeDigits? t).map fun whole =>
    let frac := fraction whole.2
    let exp := exponent frac.2
    let body := if frac.1 = [] ∧ exp.1 = none then
        let size : Int := Text.ofDecimal whole.1
        Value.integer (if negative then -size else size)
      else
        Value.number <| .ofDecimal negative (Text.ofDecimal (whole.1 ++ frac.1))
          (exp.1.getD 0 - frac.1.length)
    (body, exp.2)

def number? (t : Text) : Option (Value × Text) :=
  match t with
  | '-' :: rest =>
    match after? "Infinity".toList rest with
    | some r => some (.number (.infinity true), r)
    | none => unsigned? true rest
  | _ => unsigned? false t

/-- A name that stands for a value. -/
def named? (t : Text) : Option (Value × Text) :=
  let names : List (String × Value) :=
    [("null", .null), ("true", .bool true), ("false", .bool false), ("NaN", .number .nan),
      ("Infinity", .number (.infinity false))]
  names.findSome? fun n => (after? n.1.toList t).map fun rest => (n.2, rest)

mutual

def value? : Nat → Text → Option (Value × Text)
  | 0, _ => none
  | fuel + 1, t =>
    match t with
    | '"' :: rest => (string? fuel rest).map fun r => (.string r.1, r.2)
    | '[' :: rest =>
      match skipSpace rest with
      | ']' :: rest => some (.array [], rest)
      | rest => (items? fuel rest).map fun r => (.array r.1, r.2)
    | '\x7b' :: rest =>
      match skipSpace rest with
      | '\x7d' :: rest => some (.object [], rest)
      | rest => (fields? fuel rest).map fun r => (.ofFields r.1, r.2)
    | _ => (named? t).or (number? t)

/-- The items of an array up to its closing bracket. -/
def items? : Nat → Text → Option (List Value × Text)
  | 0, _ => none
  | fuel + 1, t =>
    match value? fuel t with
    | none => none
    | some (v, rest) =>
      match skipSpace rest with
      | ']' :: rest => some ([v], rest)
      | ',' :: rest => (items? fuel (skipSpace rest)).map fun r => (v :: r.1, r.2)
      | _ => none

/-- The fields of an object up to its closing brace. -/
def fields? : Nat → Text → Option (List (Scalar × Value) × Text)
  | 0, _ => none
  | fuel + 1, t =>
    match t with
    | '"' :: rest =>
      match string? fuel rest with
      | none => none
      | some (key, rest) =>
        match skipSpace rest with
        | ':' :: rest =>
          match value? fuel (skipSpace rest) with
          | none => none
          | some (v, rest) =>
            match skipSpace rest with
            | '\x7d' :: rest => some ([(.string key, v)], rest)
            | ',' :: rest =>
              (fields? fuel (skipSpace rest)).map fun r => ((.string key, v) :: r.1, r.2)
            | _ => none
        | _ => none
    | _ => none

end

/-- The document that a text writes. A value takes at most two steps for each of its characters. -/
def read? (t : Text) : Option Value :=
  match value? (2 * t.length + 2) (skipSpace t) with
  | some (v, rest) => if skipSpace rest = [] then some v else none
  | none => none

end Json

end SolidityFlattener
