import SolidityFlattener.Document.Yaml.Plain

/-!
Documents read from YAML.

A key that is written twice keeps its first place and its last value. The fields of a mapping under
the key `<<` are taken over in front of the mapping's own. Bytes, sets and lists of pairs, which a
tag can ask for, are no values here and are refused as such.
-/

namespace SolidityFlattener.Yaml

def standard (name : String) : Text := standardStart ++ name.toList

def scalarValue (kind : Kind) (content : Points) : Except ReadFault Value :=
  match kind with
  | .text => .ok (.string content)
  | .implied =>
    match content.text? with
    | some t => plainValue t
    | none => .ok (.string content)
  | .named name =>
    if name = standard "str" then .ok (.string content)
    else if name = standard "null" then .ok .null
    else if name = standard "int" then integerOf content.text
    else if name = standard "float" then fractionalOf content.text
    else if name = standard "bool" then booleanOf content.text
    else if name = standard "timestamp" then (moment? content.text).getD (.error .badMoment)
    else if name = standard "binary" then .error .unsupported
    else .error .malformed

/-- Whether a collection of a kind is an ordinary one of its form. -/
def isOrdinary (kind : Kind) (form : String) : Bool :=
  match kind with
  | .named name => name == standard form
  | _ => true

/-- Why a collection of a kind that is not ordinary has no value, where some kinds of its form have
values of other types. -/
def unordinary (kind : Kind) (others : List String) : ReadFault :=
  match kind with
  | .named name => if (others.map standard).contains name then .unsupported else .malformed
  | _ => .malformed

/-- A key and its value. Only a value without parts can be a key. -/
def keyed : Value × Value → Except ReadFault (Scalar × Value)
  | (.scalar key, v) => .ok (key, v)
  | _ => .error .malformed

def objectOf (pairs : List (Value × Value)) : Except ReadFault Value :=
  (pairs.mapM keyed).map .ofFields

namespace Node

/-- Whether a key asks for the fields of another mapping. -/
def isMergeKey : Node → Bool
  | scalar .implied content => content == points ['<', '<']
  | _ => false

/-- Whether a key is the mark that is a text only as a key. -/
def isEqualsKey : Node → Bool
  | scalar .implied content => content == points ['=']
  | _ => false

mutual

def value : Node → Except ReadFault Value
  | scalar kind content => scalarValue kind content
  | sequence kind items =>
    if isOrdinary kind "seq" then (values items).map .array
    else .error (unordinary kind ["omap", "pairs"])
  | mapping kind pairs =>
    if isOrdinary kind "map" then
      match fields pairs with
      | .ok (merged, own) => objectOf (merged ++ own)
      | .error e => .error e
    else .error (unordinary kind ["set"])

def values : List Node → Except ReadFault (List Value)
  | [] => .ok []
  | n :: rest =>
    match value n with
    | .error e => .error e
    | .ok v => (values rest).map (v :: ·)

/-- The fields taken over from other mappings, and a mapping's own. -/
def fields : List (Node × Node) → Except ReadFault (List (Value × Value) × List (Value × Value))
  | [] => .ok ([], [])
  | (k, v) :: rest =>
    if k.isMergeKey then
      match taken v, fields rest with
      | .ok more, .ok (merged, own) => .ok (more ++ merged, own)
      | .error e, _ => .error e
      | _, .error e => .error e
    else
      match (if k.isEqualsKey then .ok (.ofText ['=']) else value k), value v, fields rest with
      | .ok key, .ok val, .ok (merged, own) => .ok (merged, (key, val) :: own)
      | .error e, _, _ => .error e
      | _, .error e, _ => .error e
      | _, _, .error e => .error e

/-- The fields that a node under `<<` gives: its own, or those of its items, the last item first. -/
def taken : Node → Except ReadFault (List (Value × Value))
  | scalar _ _ => .error .malformed
  | mapping _ pairs =>
    match fields pairs with
    | .ok (merged, own) => .ok (merged ++ own)
    | .error e => .error e
  | sequence _ items => takenAll items

def takenAll : List Node → Except ReadFault (List (Value × Value))
  | [] => .ok []
  | mapping _ pairs :: rest =>
    match fields pairs, takenAll rest with
    | .ok (merged, own), .ok more => .ok (more ++ (merged ++ own))
    | .error e, _ => .error e
    | _, .error e => .error e
  | _ :: _ => .error .malformed

end

end Node

/-- The document that a text writes; null where it writes none. -/
def read (t : Text) : Except ReadFault Value :=
  match (tokens? t).bind document? with
  | none => .error .malformed
  | some none => .ok .null
  | some (some n) => n.value

end SolidityFlattener.Yaml
