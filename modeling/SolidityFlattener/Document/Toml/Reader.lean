import SolidityFlattener.Document.Toml.Scalar

/-!
Documents read from TOML.

Values nest in arrays and inline tables; keys with dots and table headers open tables inside the
document. Nothing may be defined twice: a table declared by a header is not declared again, one
opened by a dotted key is closed with its section, and the inside of an array or inline table
cannot be reached from outside.
-/

namespace SolidityFlattener.Toml

abbrev Fields := List (Scalar × Value)

/-- A path of keys from the document down. -/
abbrev Key := List Text

/-- A change of the table under a key, which is opened where nothing is there yet. With
`throughArrays`, an array of tables stands for its last table. -/
def changeAt (throughArrays : Bool) (f : Fields → Option Fields) : Key → Fields → Option Fields
  | [], fields => f fields
  | k :: rest, fields =>
    let name := Scalar.ofText k
    match fields.lookup name with
    | none => (changeAt throughArrays f rest []).map fun t => Value.putField name (.object t) fields
    | some (.object inner) =>
      (changeAt throughArrays f rest inner).map fun t => Value.putField name (.object t) fields
    | some (.array items) =>
      if !throughArrays then none
      -- the table that was opened last
      else match items.reverse with
        | .object inner :: before =>
          (changeAt throughArrays f rest inner).map fun t =>
            Value.putField name (.array (before.reverse ++ [.object t])) fields
        | _ => none
    | some _ => none

/-- A field that is not there yet. -/
def addField (k : Text) (v : Value) (fields : Fields) : Option Fields :=
  if (fields.lookup (Scalar.ofText k)).isSome then none else some (fields ++ [(Scalar.ofText k, v)])

def addTable (k : Text) (fields : Fields) : Option Fields :=
  match fields.lookup (Scalar.ofText k) with
  | none => some (fields ++ [(Scalar.ofText k, .array [.object []])])
  | some (.array items) =>
    some (Value.putField (Scalar.ofText k) (.array (items ++ [.object []])) fields)
  | some _ => none

def isContainer : Value → Bool
  | .array _ | .object _ => true
  | _ => false

/-- What stands between the items of an array is blank, a line break or a comment. -/
def skipBetween : Nat → Text → Option Text
  | 0, t => some t
  | fuel + 1, t =>
    match t.dropWhile fun c => isBlank c || c == '\n' with
    | '#' :: rest => (skipComment? ('#' :: rest)).bind (skipBetween fuel)
    | rest => some rest

/-- A field of an inline table, added under the rules for keys with dots. -/
def addInline (key : Key) (v : Value) (frozen : List Key) (fields : Fields) : Option Fields :=
  if frozen.any (·.isPrefixOf key) then none
  else changeAt false (addField (key.getLastD []) v) key.dropLast fields

mutual

def value? : Nat → Text → Option (Value × Text)
  | 0, _ => none
  | fuel + 1, t =>
    match t with
    | '[' :: rest =>
      match skipBetween rest.length rest with
      | none => none
      | some (']' :: rest) => some (.array [], rest)
      | some rest => (items? fuel rest).map fun r => (.array r.1, r.2)
    | '\x7b' :: rest =>
      match skipBlanks rest with
      | '\x7d' :: rest => some (.object [], rest)
      | rest => (inline? fuel [] [] rest).map fun r => (.object r.1, r.2)
    | '"' :: _ => (string? t).map fun r => (.ofText r.1, r.2)
    | '\'' :: _ => (string? t).map fun r => (.ofText r.1, r.2)
    | _ => bare? t

/-- The items of an array up to its closing bracket. -/
def items? : Nat → Text → Option (List Value × Text)
  | 0, _ => none
  | fuel + 1, t =>
    match value? fuel t with
    | none => none
    | some (v, rest) =>
      match skipBetween rest.length rest with
      | some (']' :: rest) => some ([v], rest)
      | some (',' :: rest) =>
        match skipBetween rest.length rest with
        | some (']' :: rest) => some ([v], rest)
        | some rest => (items? fuel rest).map fun r => (v :: r.1, r.2)
        | none => none
      | _ => none

/-- The fields of an inline table up to its closing brace. -/
def inline? : Nat → Fields → List Key → Text → Option (Fields × Text)
  | 0, _, _, _ => none
  | fuel + 1, fields, frozen, t =>
    match key? t.length t with
    | some (key, '=' :: rest) =>
      match value? fuel (skipBlanks rest) with
      | none => none
      | some (v, rest) =>
        match addInline key v frozen fields with
        | none => none
        | some fields =>
          match skipBlanks rest with
          | '\x7d' :: rest => some (fields, rest)
          | ',' :: rest =>
            inline? fuel fields (if isContainer v then key :: frozen else frozen) (skipBlanks rest)
          | _ => none
    | _ => none

end

/-- A document under way: its fields, the table that keys are relative to, the keys whose inside
is closed, those declared by a header, and those opened by a dotted key of this section. -/
structure Draft where
  fields : Fields
  header : Key
  frozen : List Key
  declared : List Key
  opened : List Key

namespace Draft

def start : Draft := ⟨[], [], [], [], []⟩

def isFrozen (d : Draft) (key : Key) : Bool := d.frozen.any (·.isPrefixOf key)

/-- The tables opened by dotted keys closed, at the end of a section. -/
def closeSection (d : Draft) : Draft := { d with declared := d.opened ++ d.declared, opened := [] }

def openTable? (d : Draft) (key : Key) : Option Draft :=
  let d := d.closeSection
  if d.declared.contains key || d.isFrozen key then none
  else (changeAt true some key d.fields).map fun fields =>
    { d with fields := fields, header := key, declared := key :: d.declared }

/-- The header of a table in an array; what was known below it belongs to the table before. -/
def openItem? (d : Draft) (key : Key) : Option Draft :=
  let d := d.closeSection
  if d.isFrozen key then none
  else
    let outside (keys : List Key) := keys.filter fun k => !key.isPrefixOf k
    (changeAt true (addTable (key.getLastD [])) key.dropLast d.fields).map fun fields =>
      { d with
        fields := fields, header := key
        frozen := outside d.frozen, declared := key :: outside d.declared }

/-- The keys from the first part of a dotted key to the last but one. -/
def stations (key : Key) : List Key := (List.range (key.length - 1)).map fun i => key.take (i + 1)

def assign? (d : Draft) (key : Key) (v : Value) : Option Draft :=
  let through := (stations key).map (d.header ++ ·)
  let full := d.header ++ key
  if through.any d.declared.contains || d.isFrozen full.dropLast then none
  else (changeAt true (addField (key.getLastD []) v) full.dropLast d.fields).map fun fields =>
    { d with
      fields := fields
      opened := through ++ d.opened
      frozen := if isContainer v then full :: d.frozen else d.frozen }

end Draft

def statement? (d : Draft) (t : Text) : Option (Draft × Text) :=
  match t with
  | '[' :: '[' :: rest =>
    match key? t.length (skipBlanks rest) with
    | some (key, ']' :: ']' :: rest) => (d.openItem? key).map fun d => (d, rest)
    | _ => none
  | '[' :: rest =>
    match key? t.length (skipBlanks rest) with
    | some (key, ']' :: rest) => (d.openTable? key).map fun d => (d, rest)
    | _ => none
  | '#' :: _ => some (d, t)
  | _ =>
    match key? t.length t with
    | some (key, '=' :: rest) =>
      (value? (2 * t.length + 2) (skipBlanks rest)).bind fun r =>
        (d.assign? key r.1).map fun d => (d, r.2)
    | _ => none

def statements? : Nat → Draft → Text → Option Draft
  | 0, _, _ => none
  | fuel + 1, d, t =>
    match skipBlanks t with
    | [] => some d
    | '\n' :: rest => statements? fuel d rest
    | t =>
      match statement? d t with
      | none => none
      | some (d, rest) =>
        match skipComment? (skipBlanks rest) with
        | some [] => some d
        | some ('\n' :: rest) => statements? fuel d rest
        | _ => none

def read? (t : Text) : Option Value :=
  (statements? (t.length + 1) .start t).map fun d => .object d.fields

end SolidityFlattener.Toml
