import SolidityFlattener.Document.Yaml.Token

/-!
A YAML document as a tree of nodes.

A node is a scalar, a sequence or a mapping. An alias stands for the node that its anchor named
before, and no anchor names two nodes. A text holds one document at most.
-/

namespace SolidityFlattener.Yaml

/-- How the type of a node is told: by its form, as a text, or by name. -/
inductive Kind
  | implied
  | text
  | named (name : Text)
deriving DecidableEq, Repr

inductive Node
  | scalar (kind : Kind) (content : Points)
  | sequence (kind : Kind) (items : List Node)
  | mapping (kind : Kind) (pairs : List (Node × Node))

namespace Node

/-- The node of what is left out. -/
def absent : Node := scalar .implied []

end Node

/-- The nodes that anchors have named so far. -/
abbrev Anchors := List (Text × Node)

/-- A node read, the anchors known after it, and the tokens that follow. -/
abbrev Parsed := Node × Anchors × List Token

/-- The anchor and the tag in front of a node, in either order. -/
def properties (ts : List Token) : Option Text × Option Text × List Token :=
  match ts with
  | .anchor a :: .tag _ n :: rest => (some a, some n, rest)
  | .tag _ n :: .anchor a :: rest => (some a, some n, rest)
  | .anchor a :: rest => (some a, none, rest)
  | .tag _ n :: rest => (none, some n, rest)
  | _ => (none, none, ts)

def standardStart : Text := "tag:yaml.org,2002:".toList

/-- What handles stand for. -/
abbrev Handles := List (Text × Text)

def knownHandles : Handles := [(['!'], ['!']), (['!', '!'], standardStart)]

/-- A token with the tag in it written out in full, if its handle is known. -/
def Token.inFull? (handles : Handles) : Token → Option Token
  | .tag (some handle) name => (handles.lookup handle).map fun start => .tag none (start ++ name)
  | t => some t

/-- The kind of a node with a tag, or without. The mark alone asks for the form to tell. -/
def kindOf (untagged : Kind) : Option Text → Kind
  | none => untagged
  | some name => if name = ['!'] then .implied else .named name

/-- Whether a node ends before a token of a flow collection. -/
def endsFlow : List Token → Bool
  | .flowEntry :: _ | .flowSequenceEnd :: _ | .flowMappingEnd :: _ | .value :: _ => true
  | _ => false

/-- Whether a node of a block mapping is left out before a token. -/
def endsBlock : List Token → Bool
  | .key :: _ | .value :: _ | .blockEnd :: _ => true
  | _ => false

/-- A node remembered under its anchor, which must be new. -/
def remember? (anchor : Option Text) (r : Parsed) : Option Parsed :=
  match anchor with
  | none => some r
  | some a => if (r.2.1.lookup a).isSome then none else some (r.1, (a, r.1) :: r.2.1, r.2.2)

/-- A collection as a node, once its kind is known and its content was read. -/
def collection? {α : Type} (anchor : Option Text) (kind : Kind) (make : Kind → α → Node) :
    Option (α × Anchors × List Token) → Option Parsed
  | some (content, known, rest) => remember? anchor (make kind content, known, rest)
  | none => none

mutual

/-- A node. A block collection may open it only where `block` allows that, and a sequence without
indentation of its own only where `loose` does. -/
def node? : Nat → Bool → Bool → Anchors → List Token → Option Parsed
  | 0, _, _, _, _ => none
  | fuel + 1, block, loose, known, ts =>
    match ts with
    | .alias a :: rest => (known.lookup a).map fun n => (n, known, rest)
    | _ =>
      let (anchor, tag, body) := properties ts
      match body with
      | .scalar content plain :: rest =>
        let kind := kindOf (if plain then .implied else .text) tag
        remember? anchor (.scalar kind content, known, rest)
      | .flowSequenceStart :: rest =>
        collection? anchor (kindOf .implied tag) .sequence (flowItems? fuel true known rest)
      | .flowMappingStart :: rest =>
        collection? anchor (kindOf .implied tag) .mapping (flowPairs? fuel true known rest)
      | .sequenceStart :: rest =>
        if block then collection? anchor (kindOf .implied tag) .sequence (items? fuel known rest)
        else none
      | .mappingStart :: rest =>
        if block then collection? anchor (kindOf .implied tag) .mapping (pairs? fuel known rest)
        else none
      | .entry :: _ =>
        if loose then
          collection? anchor (kindOf .implied tag) .sequence (looseItems? fuel known body)
        else if anchor.isSome || tag.isSome then
          remember? anchor (.scalar (kindOf .implied tag) [], known, body)
        else none
      | _ =>
        if anchor.isSome || tag.isSome then
          remember? anchor (.scalar (kindOf .implied tag) [], known, body)
        else none

/-- The entries of a block sequence up to its end. -/
def items? : Nat → Anchors → List Token → Option (List Node × Anchors × List Token)
  | 0, _, _ => none
  | fuel + 1, known, ts =>
    match ts with
    | .blockEnd :: rest => some ([], known, rest)
    | .entry :: rest =>
      let first : Option Parsed := match rest with
        | .entry :: _ => some (.absent, known, rest)
        | .blockEnd :: _ => some (.absent, known, rest)
        | _ => node? fuel true false known rest
      match first with
      | none => none
      | some (n, known, rest) => (items? fuel known rest).map fun r => (n :: r.1, r.2)
    | _ => none

/-- The entries of a sequence without indentation of its own. -/
def looseItems? : Nat → Anchors → List Token → Option (List Node × Anchors × List Token)
  | 0, _, _ => none
  | fuel + 1, known, ts =>
    match ts with
    | .entry :: rest =>
      let first : Option Parsed := match rest with
        | .entry :: _ => some (.absent, known, rest)
        | _ =>
          if endsBlock rest then some (.absent, known, rest) else node? fuel true false known rest
      match first with
      | none => none
      | some (n, known, rest) => (looseItems? fuel known rest).map fun r => (n :: r.1, r.2)
    | _ => some ([], known, ts)

/-- The pairs of a block mapping up to its end. -/
def pairs? : Nat → Anchors → List Token → Option (List (Node × Node) × Anchors × List Token)
  | 0, _, _ => none
  | fuel + 1, known, ts =>
    let side (known : Anchors) (ts : List Token) : Option Parsed :=
      if endsBlock ts then some (.absent, known, ts) else node? fuel true true known ts
    let valueOf (known : Anchors) (ts : List Token) : Option Parsed :=
      match ts with
      | .value :: rest => side known rest
      | _ => some (.absent, known, ts)
    let pair : Option (Node × Parsed) := match ts with
      | .key :: rest =>
        (side known rest).bind fun k => (valueOf k.2.1 k.2.2).map fun v => (k.1, v)
      | _ => none
    match ts with
    | .blockEnd :: rest => some ([], known, rest)
    | _ =>
      match pair with
      | none => none
      | some (k, v, known, rest) =>
        (pairs? fuel known rest).map fun r => ((k, v) :: r.1, r.2)

/-- The entries of a flow sequence up to its bracket. A pair may stand as an entry. -/
def flowItems? : Nat → Bool → Anchors → List Token → Option (List Node × Anchors × List Token)
  | 0, _, _, _ => none
  | fuel + 1, isFirst, known, ts =>
    match ts with
    | .flowSequenceEnd :: rest => some ([], known, rest)
    | _ =>
      let afterComma : Option (List Token) :=
        if isFirst then some ts
        else match ts with
          | .flowEntry :: rest => some rest
          | _ => none
      match afterComma with
      | none => none
      | some (.flowSequenceEnd :: rest) => some ([], known, rest)
      | some ts =>
        let entry : Option Parsed := match ts with
          | .key :: rest =>
            (flowPair? fuel known rest).map fun r =>
              (.mapping .implied [r.1], r.2)
          | _ => node? fuel false false known ts
        match entry with
        | none => none
        | some (n, known, rest) =>
          (flowItems? fuel false known rest).map fun r => (n :: r.1, r.2)

/-- A pair of a flow collection after its key mark. -/
def flowPair? : Nat → Anchors → List Token → Option ((Node × Node) × Anchors × List Token)
  | 0, _, _ => none
  | fuel + 1, known, ts =>
    let key : Option Parsed :=
      if endsFlow ts then some (.absent, known, ts) else node? fuel false false known ts
    match key with
    | none => none
    | some (k, known, .value :: rest) =>
      match rest with
      | .value :: _ => none
      | _ =>
        if endsFlow rest then some ((k, .absent), known, rest)
        else (node? fuel false false known rest).map fun v => ((k, v.1), v.2)
    | some (k, known, rest) => some ((k, .absent), known, rest)

/-- The pairs of a flow mapping up to its brace. An entry without a colon has no value. -/
def flowPairs? : Nat → Bool → Anchors → List Token →
    Option (List (Node × Node) × Anchors × List Token)
  | 0, _, _, _ => none
  | fuel + 1, isFirst, known, ts =>
    match ts with
    | .flowMappingEnd :: rest => some ([], known, rest)
    | _ =>
      let afterComma : Option (List Token) :=
        if isFirst then some ts
        else match ts with
          | .flowEntry :: rest => some rest
          | _ => none
      match afterComma with
      | none => none
      | some (.flowMappingEnd :: rest) => some ([], known, rest)
      | some ts =>
        let entry : Option ((Node × Node) × Anchors × List Token) := match ts with
          | .key :: rest => flowPair? fuel known rest
          | _ => (node? fuel false false known ts).map fun n => ((n.1, .absent), n.2)
        match entry with
        | none => none
        | some (pair, known, rest) =>
          (flowPairs? fuel false known rest).map fun r => (pair :: r.1, r.2)

end

/-- The handles that the directives in front of a document declare, and what follows. Only version 1
is known, and nothing is declared twice. -/
def directives? : Bool → Handles → List Token → Option (Handles × List Token)
  | versioned, handles, .directive d :: rest =>
    match d with
    | .version major => if versioned || major != 1 then none else directives? true handles rest
    | .handle handle start =>
      if (handles.lookup handle).isSome then none
      else directives? versioned ((handle, start) :: handles) rest
    | .other => directives? versioned handles rest
  | _, handles, ts => some (handles, ts)

/-- Whether nothing but document marks is left. -/
def isOver : List Token → Bool
  | [] => true
  | .documentEnd :: rest => isOver rest
  | _ => false

/-- The document of some tokens; none inside where there is no document. -/
def document? (ts : List Token) : Option (Option Node) :=
  let content (handles : Handles) (ts : List Token) : Option (Option Node) :=
    match (ts.mapM (Token.inFull? handles)).bind (node? (2 * ts.length + 2) true false []) with
    | some (n, _, rest) => if isOver rest then some (some n) else none
    | none => none
  match ts with
  | [] => some none
  | .directive _ :: _ | .documentStart :: _ =>
    match directives? false [] ts with
    | some (handles, .documentStart :: rest) =>
      match rest with
      | [] => some (some .absent)
      | .documentEnd :: _ => if isOver rest then some (some .absent) else none
      | .directive _ :: _ | .documentStart :: _ => none
      | _ => content (handles ++ knownHandles) rest
    | _ => none
  | _ => content knownHandles ts

end SolidityFlattener.Yaml
