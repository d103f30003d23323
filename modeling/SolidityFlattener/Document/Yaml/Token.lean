import SolidityFlattener.Document.Yaml.Scalars
import SolidityFlattener.Text.Utf8

/-!
A YAML text as tokens.

Indentation becomes tokens that open and close collections. A scalar turns out to be a key only when
its colon is met, so each place that can start a key is remembered, one for each depth of flow
brackets, and the key token is put in front of it afterwards. A remembered place is given up at the
end of its line; that is an error where the indentation leaves no other reading.
-/

namespace SolidityFlattener.Yaml

/-- What a line that starts with a percent sign declares. -/
inductive Directive
  | version (major : Nat)
  | handle (handle start : Text)
  | other
deriving DecidableEq, Repr

/-- A token. A tag has a handle, none where it is written out in full. -/
inductive Token
  | directive (d : Directive)
  | documentStart
  | documentEnd
  | sequenceStart
  | mappingStart
  | blockEnd
  | flowSequenceStart
  | flowSequenceEnd
  | flowMappingStart
  | flowMappingEnd
  | entry
  | flowEntry
  | key
  | value
  | alias (name : Text)
  | anchor (name : Text)
  | tag (handle : Option Text) (name : Text)
  | scalar (content : Points) (plain : Bool)
deriving DecidableEq, Repr

/-- A place that a key can start at: the number of the token there, and where it stands. -/
structure KeyPlace where
  token : Nat
  index : Nat
  line : Nat
  column : Nat
  required : Bool

def isNameChar (c : Char) : Bool := c.isAlphanum || c == '-' || c == '_'

/-- Whether a word of a tag or directive ends here. -/
def endsWord (c : Cursor) : Bool := c.head == ' ' || isBreakOrEnd c.head

/-- The bytes of characters written with a percent sign and two hexadecimal digits each. -/
def percentBytes? : Nat → Cursor → Option (List UInt8 × Cursor)
  | 0, c => some ([], c)
  | fuel + 1, c =>
    if c.head = '%' then
      match Text.ofHex? [c.peek 1, c.peek 2] with
      | some n => (percentBytes? fuel (c.skip 3)).map fun r => (UInt8.ofNat n :: r.1, r.2)
      | none => none
    else some ([], c)

/-- The characters of a tag's name that stand for themselves. -/
def isTagChar (c : Char) : Bool :=
  c.isAlphanum || "-;/?:@&=+$,_.!~*'()[]".toList.contains c

def tagName? : Nat → Cursor → Option (Text × Cursor)
  | 0, c => some ([], c)
  | fuel + 1, c =>
    if c.head = '%' then
      match percentBytes? c.rest.length c with
      | none => none
      | some (bytes, c) =>
        match Text.ofUtf8? ⟨bytes.toArray⟩ with
        | none => none
        | some t => (tagName? fuel c).map fun r => (t ++ r.1, r.2)
    else if isTagChar c.head then (tagName? fuel c.next).map fun r => (c.head :: r.1, r.2)
    else some ([], c)

def properTagName? (c : Cursor) : Option (Text × Cursor) :=
  (tagName? (c.rest.length + 1) c).filter fun r => r.1 != []

/-- The handle of a tag: an exclamation mark, or a name between two. -/
def tagHandle? (c : Cursor) : Option (Text × Cursor) :=
  if c.head ≠ '!' then none
  else if c.peek 1 = ' ' then some (['!'], c.next)
  else
    let name := c.next.span isNameChar
    let c := c.next.after isNameChar
    if c.head = '!' then some ('!' :: name ++ ['!'], c.next) else none

/-- What a directive of a name declares, and the place after it. -/
def declared? (name : Text) (c : Cursor) : Option (Directive × Cursor) :=
  let body := c.after (· == ' ')
  if name = "YAML".toList then
    let major := body.span Char.isDigit
    let c := body.after Char.isDigit
    let minor := c.next.span Char.isDigit
    let c' := c.next.after Char.isDigit
    if major = [] ∨ c.head ≠ '.' ∨ minor = [] ∨ !endsWord c' then none
    else some (.version (Text.ofDecimal major), c')
  else if name = "TAG".toList then do
    let (handle, c) ← tagHandle? body
    if c.head ≠ ' ' then none
    else
      let (start, c) ← properTagName? (c.after (· == ' '))
      if endsWord c then some (.handle handle start, c) else none
  else some (.other, c.after fun d => !isBreakOrEnd d)

/-- A directive after its percent sign, up to the end of its line. -/
def directive? (c : Cursor) : Option (Directive × Cursor) :=
  let name := c.span isNameChar
  let c := c.after isNameChar
  if name = [] ∨ !endsWord c then none
  else match declared? name c with
    | none => none
    | some (d, c) =>
      let c := c.after (· == ' ')
      let c := if c.head = '#' then c.after (fun d => !isBreakOrEnd d) else c
      if isBreakOrEnd c.head then some (d, c) else none

/-- The scan under way. The indentation counts one column more than it stands at, zero outside all
collections. -/
structure Scanner where
  here : Cursor
  tokens : List Token
  flow : Nat
  indent : Nat
  outer : List Nat
  keyAllowed : Bool
  keys : List (Nat × KeyPlace)

namespace Scanner

def start (t : Text) : Scanner := ⟨.start t, [], 0, 0, [], true, []⟩

def head (s : Scanner) : Char := s.here.head

/-- The column a scan stands at, in the count of indentations. -/
def column (s : Scanner) : Nat := s.here.column + 1

def push (s : Scanner) (t : Token) : Scanner := { s with tokens := s.tokens ++ [t] }

/-- A token put in front of one that is there already. -/
def putBefore (s : Scanner) (n : Nat) (t : Token) : Scanner :=
  { s with tokens := s.tokens.take n ++ t :: s.tokens.drop n }

def skipGap : Nat → Scanner → Scanner
  | 0, s => s
  | fuel + 1, s =>
    let c := s.here.after (· == ' ')
    let c := if c.head = '#' then c.after (fun d => !isBreakOrEnd d) else c
    if isBreak c.head then
      skipGap fuel { s with here := c.takeBreak.2, keyAllowed := s.keyAllowed || s.flow == 0 }
    else { s with here := c }

/-- The key places that are still on this line. -/
def dropStale? (s : Scanner) : Option Scanner :=
  let isStale (k : KeyPlace) : Bool := k.line != s.here.line || 1024 < s.here.index - k.index
  if s.keys.any fun e => isStale e.2 && e.2.required then none
  else some { s with keys := s.keys.filter fun e => !isStale e.2 }

/-- The key place of this depth given up. -/
def dropKey? (s : Scanner) : Option Scanner :=
  match s.keys.lookup s.flow with
  | some k => if k.required then none else some { s with keys := s.keys.filter (·.1 != s.flow) }
  | none => some s

/-- This place remembered, where a key can start. -/
def saveKey? (s : Scanner) : Option Scanner :=
  if s.keyAllowed then
    s.dropKey?.map fun s =>
      -- a key is required where a mapping is open at this very column
      { s with
        keys := (s.flow, ⟨s.tokens.length, s.here.index, s.here.line, s.here.column,
          s.flow == 0 && s.indent == s.column⟩) :: s.keys }
  else some s

def unwind (column : Nat) : Nat → Scanner → Scanner
  | 0, s => s
  | fuel + 1, s =>
    if s.flow = 0 ∧ column < s.indent then
      unwind column fuel
        { s with
          indent := s.outer.headD 0, outer := s.outer.drop 1, tokens := s.tokens ++ [.blockEnd] }
    else s

def unwindTo (s : Scanner) (column : Nat) : Scanner := s.unwind column (s.outer.length + 1)

/-- A deeper indentation entered; the flag tells whether it is one. -/
def deepen (s : Scanner) (column : Nat) : Bool × Scanner :=
  if s.indent < column then (true, { s with indent := column, outer := s.indent :: s.outer })
  else (false, s)

/-- A mark of three characters that parts documents. -/
def documentMark? (s : Scanner) (t : Token) : Option Scanner :=
  (s.unwindTo 0).dropKey?.map fun s =>
    { s with here := s.here.skip 3, keyAllowed := false }.push t

/-- A directive: its name, what it declares, and at most a comment after it. -/
def directive? (s : Scanner) : Option Scanner :=
  (s.unwindTo 0).dropKey?.bind fun s =>
    match Yaml.directive? s.here.next with
    | none => none
    | some (d, c) => some ({ s with here := c, keyAllowed := false }.push (.directive d))

def openFlow? (s : Scanner) (t : Token) : Option Scanner :=
  s.saveKey?.map fun s =>
    { s with here := s.here.next, flow := s.flow + 1, keyAllowed := true }.push t

def closeFlow? (s : Scanner) (t : Token) : Option Scanner :=
  if s.flow = 0 then none
  else s.dropKey?.map fun s =>
    { s with here := s.here.next, flow := s.flow - 1, keyAllowed := false }.push t

def flowEntry? (s : Scanner) : Option Scanner :=
  s.dropKey?.map fun s => { s with here := s.here.next, keyAllowed := true }.push .flowEntry

def entry? (s : Scanner) : Option Scanner :=
  if s.flow = 0 ∧ !s.keyAllowed then none
  else
    let s := if s.flow = 0 then
        let (deeper, s) := s.deepen s.column
        if deeper then s.push .sequenceStart else s
      else s
    s.dropKey?.map fun s => { s with here := s.here.next, keyAllowed := true }.push .entry

def keyMark? (s : Scanner) : Option Scanner :=
  if s.flow = 0 ∧ !s.keyAllowed then none
  else
    let s := if s.flow = 0 then
        let (deeper, s) := s.deepen s.column
        if deeper then s.push .mappingStart else s
      else s
    s.dropKey?.map fun s => { s with here := s.here.next, keyAllowed := s.flow == 0 }.push .key

/-- The colon of a value. A key place of this depth becomes a key, and opens a mapping where it is
indented deeper. -/
def valueMark? (s : Scanner) : Option Scanner :=
  match s.keys.lookup s.flow with
  | some k =>
    let s := { s with keys := s.keys.filter (·.1 != s.flow), keyAllowed := false }
    let s := s.putBefore k.token .key
    let s := if s.flow = 0 then
        let (deeper, s) := s.deepen (k.column + 1)
        if deeper then s.putBefore k.token .mappingStart else s
      else s
    some ({ s with here := s.here.next }.push .value)
  | none =>
    if s.flow = 0 ∧ !s.keyAllowed then none
    else
      let s := if s.flow = 0 then
          let (deeper, s) := s.deepen s.column
          if deeper then s.push .mappingStart else s
        else s
      s.dropKey?.map fun s => { s with here := s.here.next, keyAllowed := s.flow == 0 }.push .value

/-- The name of an anchor or alias after its mark. -/
def name? (s : Scanner) (make : Text → Token) : Option Scanner :=
  s.saveKey?.bind fun s =>
    let c := s.here.next
    let name := c.span isNameChar
    let after := c.after isNameChar
    let ends := isGap after.head || ['?', ':', ',', ']', '\x7d', '%', '@'].contains after.head ||
      after.head.val.toNat == 0x60
    if name = [] ∨ !ends then none
    else some ({ s with here := after, keyAllowed := false }.push (make name))

/-- A tag: in full between angle brackets, the mark alone, or a handle and a name. -/
def tag? (s : Scanner) : Option Scanner :=
  s.saveKey?.bind fun s =>
    let c := s.here
    let finish (handle : Option Text) (r : Text × Cursor) : Option Scanner :=
      if endsWord r.2 then
        some ({ s with here := r.2, keyAllowed := false }.push (.tag handle r.1))
      else none
    if c.peek 1 = '<' then do
      let (name, c) ← properTagName? (c.skip 2)
      if c.head = '>' then finish none (name, c.next) else none
    else if isGap (c.peek 1) then finish none (['!'], c.next)
    else
      let body := c.next.span fun d => !isBreakOrEnd d && d != ' '
      if body.contains '!' then do
        let (handle, c) ← tagHandle? c
        finish (some handle) (← properTagName? c)
      else (properTagName? c.next).bind (finish (some ['!']))

def block? (s : Scanner) (fold : Bool) : Option Scanner :=
  match { s with keyAllowed := true }.dropKey? with
  | none => none
  | some s =>
    match Yaml.block? fold (max s.indent 1) s.here.next with
    | none => none
    | some (text, c) => some ({ s with here := c }.push (.scalar (points text) false))

def quoted? (s : Scanner) (double : Bool) : Option Scanner :=
  match s.saveKey? with
  | none => none
  | some s =>
    match Yaml.quoted? double (s.here.rest.length + 1) s.here.next with
    | none => none
    | some (content, c) =>
      some ({ s with here := c, keyAllowed := false }.push (.scalar content false))

def plain? (s : Scanner) : Option Scanner :=
  s.saveKey?.map fun s =>
    let (text, c, broken) := Yaml.plain (s.flow != 0) s.indent (s.here.rest.length + 1) s.here
    { s with here := c, keyAllowed := broken }.push (.scalar (points text) true)

def startsPlain (s : Scanner) : Bool :=
  let c := s.head
  let marks := "-?:,[]\x7b\x7d#&*!|>'\"%@".toList
  (!isGap c && !marks.contains c && c.val.toNat != 0x60) ||
    (!isGap (s.here.peek 1) && (c == '-' || (s.flow == 0 && (c == '?' || c == ':'))))

def token? (s : Scanner) : Option Scanner :=
  let c := s.head
  let gapNext := isGap (s.here.peek 1)
  let inFlow := s.flow != 0
  if c = '%' ∧ s.here.column = 0 then s.directive?
  else if s.here.column = 0 ∧ s.here.atMark ['-', '-', '-'] then s.documentMark? .documentStart
  else if s.here.column = 0 ∧ s.here.atMark ['.', '.', '.'] then s.documentMark? .documentEnd
  else if c = '[' then s.openFlow? .flowSequenceStart
  else if c = '\x7b' then s.openFlow? .flowMappingStart
  else if c = ']' then s.closeFlow? .flowSequenceEnd
  else if c = '\x7d' then s.closeFlow? .flowMappingEnd
  else if c = ',' then s.flowEntry?
  else if c = '-' ∧ gapNext then s.entry?
  else if c = '?' ∧ (inFlow ∨ gapNext) then s.keyMark?
  else if c = ':' ∧ (inFlow ∨ gapNext) then s.valueMark?
  else if c = '*' then s.name? .alias
  else if c = '&' then s.name? .anchor
  else if c = '!' then s.tag?
  else if c = '|' ∧ !inFlow then s.block? false
  else if c = '>' ∧ !inFlow then s.block? true
  else if c = '\'' then s.quoted? false
  else if c = '"' then s.quoted? true
  else if s.startsPlain then s.plain?
  else none

def run? : Nat → Scanner → Option (List Token)
  | 0, _ => none
  | fuel + 1, s =>
    match (s.skipGap (s.here.rest.length + 1)).dropStale? with
    | none => none
    | some s =>
      let s := s.unwindTo s.column
      if s.here.rest = [] then (s.unwindTo 0).dropKey?.map tokens
      else s.token?.bind (run? fuel)

end Scanner

/-- The tokens of a text. A byte order mark at its start is passed over. -/
def tokens? (t : Text) : Option (List Token) :=
  if t.all isAllowed then
    let s := Scanner.start t
    let s := if s.head = byteOrderMark then { s with here := s.here.next } else s
    s.run? (t.length + 1)
  else none

end SolidityFlattener.Yaml
