import SolidityFlattener.Document.Value
import SolidityFlattener.Document.Calendar

/-!
The indivisible parts of a TOML document: comments, the four kinds of strings, keys, numbers, dates
and times.

Each reader answers with what it read and what follows.
-/

namespace SolidityFlattener.Toml

def isBlank (c : Char) : Bool := c == ' ' || c == '\t'

def skipBlanks (t : Text) : Text := t.dropWhile isBlank

/-- The control characters, which stand nowhere but for tabs and line breaks. -/
def isIllegal (c : Char) : Bool := (c.val.toNat < 0x20 || c.val.toNat == 0x7F) && c != '\t'

/-- The end of the line, if only a comment is left on it. -/
def skipComment? : Text → Option Text
  | '#' :: rest =>
    if (rest.takeWhile (· != '\n')).any isIllegal then none else some (rest.dropWhile (· != '\n'))
  | t => some t

/-- The text before a mark and the text after it; some characters may not stand before it. -/
def upTo? (mark : Text) (illegal : Char → Bool) : Text → Option (Text × Text)
  | [] => none
  | c :: rest =>
    if mark.isPrefixOf (c :: rest) then some ([], (c :: rest).drop mark.length)
    else if illegal c then none
    else (upTo? mark illegal rest).map fun r => (c :: r.1, r.2)

/-- The character of an escape with a number of hexadecimal digits. -/
def scalarEscape? (width : Nat) (t : Text) : Option (Text × Text) :=
  if t.length < width then none
  else match Text.ofHex? (t.take width) with
    | none => none
    | some n =>
      if h : n.isValidChar then some ([Char.ofNatAux n h], t.drop width) else none

/-- What follows a line break that is escaped: blank lines and indentation are dropped. -/
def foldedBreak? (t : Text) : Option (Text × Text) :=
  match skipBlanks t with
  | [] => some ([], [])
  | '\n' :: rest => some ([], rest.dropWhile fun c => isBlank c || c == '\n')
  | _ => none

def escape? (multi : Bool) : Text → Option (Text × Text)
  | [] => none
  | c :: rest =>
    if c = 'b' then some ([Char.ofNat 8], rest)
    else if c = 't' then some (['\t'], rest)
    else if c = 'n' then some (['\n'], rest)
    else if c = 'f' then some ([Char.ofNat 12], rest)
    else if c = 'r' then some (['\r'], rest)
    else if c = '"' ∨ c = '\\' then some ([c], rest)
    else if c = 'u' then scalarEscape? 4 rest
    else if c = 'U' then scalarEscape? 8 rest
    else if multi && (isBlank c || c == '\n') then foldedBreak? (c :: rest)
    else none

def basic? (multi : Bool) : Nat → Text → Option (Text × Text)
  | 0, _ => none
  | _ + 1, [] => none
  | fuel + 1, '"' :: rest =>
    if !multi then some ([], rest)
    else match rest with
      | '"' :: '"' :: after => some ([], after)
      | _ => (basic? multi fuel rest).map fun r => ('"' :: r.1, r.2)
  | fuel + 1, '\\' :: rest =>
    match escape? multi rest with
    | none => none
    | some (cs, after) => (basic? multi fuel after).map fun r => (cs ++ r.1, r.2)
  | fuel + 1, c :: rest =>
    if isIllegal c && !(multi && c == '\n') then none
    else (basic? multi fuel rest).map fun r => (c :: r.1, r.2)

/-- A line break right after the opening quotes does not count. -/
def dropFirstBreak : Text → Text
  | '\n' :: rest => rest
  | t => t

/-- Up to two quotes before the closing ones belong to the string. -/
def extraQuotes (quote : Char) (r : Text × Text) : Text × Text :=
  let extra := (r.2.take 2).takeWhile (· == quote)
  (r.1 ++ extra, r.2.drop extra.length)

def string? (t : Text) : Option (Text × Text) :=
  match t with
  | '"' :: '"' :: '"' :: rest =>
    (basic? true (rest.length + 1) (dropFirstBreak rest)).map (extraQuotes '"')
  | '"' :: rest => basic? false (rest.length + 1) rest
  | '\'' :: '\'' :: '\'' :: rest =>
    (upTo? ['\'', '\'', '\''] (fun c => isIllegal c && c != '\n') (dropFirstBreak rest)).map
      (extraQuotes '\'')
  | '\'' :: rest => upTo? ['\''] isIllegal rest
  | _ => none

def isBareKeyChar (c : Char) : Bool := c.isAlphanum || c == '-' || c == '_'

/-- One part of a key: bare, or a string of one line. -/
def keyPart? (t : Text) : Option (Text × Text) :=
  match t with
  | '"' :: rest => basic? false (rest.length + 1) rest
  | '\'' :: rest => upTo? ['\''] isIllegal rest
  | _ =>
    match t.takeWhile isBareKeyChar with
    | [] => none
    | name => some (name, t.dropWhile isBareKeyChar)

/-- A key: its parts, and what follows the blanks after it. -/
def key? : Nat → Text → Option (List Text × Text)
  | 0, _ => none
  | fuel + 1, t =>
    match keyPart? t with
    | none => none
    | some (part, rest) =>
      match skipBlanks rest with
      | '.' :: more => (key? fuel (skipBlanks more)).map fun r => (part :: r.1, r.2)
      | rest => some ([part], rest)

/-- Digits that may be parted by single underscores, after a first one. -/
def moreDigits (p : Char → Bool) : Text → Text × Text
  | '_' :: d :: rest =>
    if p d then (d :: (moreDigits p rest).1, (moreDigits p rest).2) else ([], '_' :: d :: rest)
  | d :: rest =>
    if p d then (d :: (moreDigits p rest).1, (moreDigits p rest).2) else ([], d :: rest)
  | [] => ([], [])

/-- Digits that may be parted by single underscores. -/
def digits? (p : Char → Bool) : Text → Option (Text × Text)
  | d :: rest =>
    if p d then some (d :: (moreDigits p rest).1, (moreDigits p rest).2) else none
  | [] => none

def based? (t : Text) : Option (Value × Text) :=
  let number (base : Nat) (p : Char → Bool) (rest : Text) : Option (Value × Text) :=
    (digits? p rest).bind fun r =>
      (r.1.mapM Text.hexValue?).map fun ds => (.integer (Text.ofDigits base ds), r.2)
  match t with
  | '0' :: 'x' :: rest => number 16 (fun c => (Text.hexValue? c).isSome) rest
  | '0' :: 'o' :: rest => number 8 (fun c => '0' ≤ c && c ≤ '7') rest
  | '0' :: 'b' :: rest => number 2 (fun c => c == '0' || c == '1') rest
  | _ => none

def sign : Text → Bool × Text
  | '-' :: rest => (true, rest)
  | '+' :: rest => (false, rest)
  | t => (false, t)

/-- The digits before the point: a zero stands alone. -/
def whole? : Text → Option (Text × Text)
  | '0' :: rest => some (['0'], rest)
  | t => digits? Char.isDigit t

def fraction? : Text → Option (Text × Text)
  | '.' :: rest => digits? Char.isDigit rest
  | _ => none

def exponent? : Text → Option (Int × Text)
  | e :: rest =>
    if e = 'e' ∨ e = 'E' then
      (digits? Char.isDigit (sign rest).2).map fun r =>
        let size : Int := Text.ofDecimal r.1
        (if (sign rest).1 then -size else size, r.2)
    else none
  | [] => none

def decimal? (t : Text) : Option (Value × Text) :=
  let (negative, body) := sign t
  (whole? body).map fun (digits, rest) =>
    let frac := fraction? rest
    let rest := (frac.map Prod.snd).getD rest
    let exp := exponent? rest
    let rest := (exp.map Prod.snd).getD rest
    let places := (frac.map Prod.fst).getD []
    if frac.isNone && exp.isNone then
      let size : Int := Text.ofDecimal digits
      (.integer (if negative then -size else size), rest)
    else
      (.number (.ofDecimal negative (Text.ofDecimal (digits ++ places))
        ((exp.map Prod.fst).getD 0 - places.length)), rest)

/-- A name of a number that has no digits. -/
def namedNumber? (t : Text) : Option (Value × Text) :=
  let (negative, body) := sign t
  if "inf".toList.isPrefixOf body then some (.number (.infinity negative), body.drop 3)
  else if "nan".toList.isPrefixOf body then some (.number .nan, body.drop 3)
  else none

/-- A numeral of a fixed width within bounds. -/
def field? (width low high : Nat) (t : Text) : Option (Nat × Text) :=
  let head := t.take width
  if head.length = width ∧ head.all Char.isDigit then
    let n := Text.ofDecimal head
    if low ≤ n ∧ n ≤ high then some (n, t.drop width) else none
  else none

def mark? (c : Char) : Text → Option Text
  | d :: rest => if c = d then some rest else none
  | [] => none

def time? (t : Text) : Option (TimeOfDay × Text) := do
  let (hour, t) ← field? 2 0 23 t
  let (minute, t) ← field? 2 0 59 (← mark? ':' t)
  let (second, t) ← field? 2 0 59 (← mark? ':' t)
  match t with
  | '.' :: rest =>
    match rest.takeWhile Char.isDigit with
    | [] => return (⟨hour, minute, second, 0⟩, t)
    | ds => return (⟨hour, minute, second, TimeOfDay.microOf ds⟩, rest.dropWhile Char.isDigit)
  | _ => return (⟨hour, minute, second, 0⟩, t)

/-- A distance from universal time in minutes, if there is one. -/
def offset (t : Text) : Option Int × Text :=
  let distance (rest : Text) : Option (Int × Text) := do
    let (hours, rest) ← field? 2 0 23 rest
    let (minutes, rest) ← field? 2 0 59 (← mark? ':' rest)
    return (hours * 60 + minutes, rest)
  match t with
  | 'Z' :: rest => (some 0, rest)
  | 'z' :: rest => (some 0, rest)
  | '+' :: rest => ((distance rest).map fun r => (some r.1, r.2)).getD (none, t)
  | '-' :: rest => ((distance rest).map fun r => (some (-r.1), r.2)).getD (none, t)
  | _ => (none, t)

/-- A date, with a time where one follows. The answer is none inside where the date does not
exist. -/
def date? (t : Text) : Option (Option Value × Text) := do
  let (year, t) ← field? 4 0 9999 t
  let (month, t) ← field? 2 1 12 (← mark? '-' t)
  let (day, t) ← field? 2 1 31 (← mark? '-' t)
  let date : Date := ⟨year, month, day⟩
  let dated (m : Moment) : Option Value := if date.isValid then some (.moment m) else none
  match t with
  | c :: rest =>
    if c = 'T' ∨ c = 't' ∨ c = ' ' then
      match time? rest with
      | some (time, rest) =>
        let off := offset rest
        return (dated (.dateTime date time off.1), off.2)
      | none => return (dated (.date date), t)
    else return (dated (.date date), t)
  | [] => return (dated (.date date), t)

def bare? (t : Text) : Option (Value × Text) :=
  if "true".toList.isPrefixOf t then some (.bool true, t.drop 4)
  else if "false".toList.isPrefixOf t then some (.bool false, t.drop 5)
  else match date? t with
    | some (some v, rest) => some (v, rest)
    | some (none, _) => none
    | none =>
      match time? t with
      | some (time, rest) => some (.moment (.time time), rest)
      | none => (based? t).or ((decimal? t).or (namedNumber? t))

end SolidityFlattener.Toml
