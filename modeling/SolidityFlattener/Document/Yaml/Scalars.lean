import SolidityFlattener.Document.Yaml.Cursor

/-!
The scalars of a YAML text as they are written: plain, quoted, and in blocks.

A line break inside a plain or quoted scalar is folded into a blank, and a run of breaks loses its
first. A block keeps its breaks, or folds those between lines that start at its indentation.
-/

namespace SolidityFlattener.Yaml

def points (t : Text) : Points := Points.ofText t

/-- Breaks with blanks of some kind between them, up to the first place without; none where
documents are parted at the start of a line. -/
def breaksWith? (blank : Char → Bool) : Nat → Cursor → Option (Text × Cursor)
  | 0, _ => none
  | fuel + 1, c =>
    if c.atDocumentMark then none
    else
      let c := c.after blank
      if isBreak c.head then
        let (b, c) := c.takeBreak
        (breaksWith? blank fuel c).map fun r => (b ++ r.1, r.2)
      else some ([], c)

/-- A folded break: a blank for one line feed, the further breaks for more. -/
def folded (first further : Text) : Text :=
  if first != ['\n'] then first ++ further
  else if further = [] then [' ']
  else further

def escaped? (c : Char) : Option Char :=
  let table : List (Char × Nat) :=
    [('0', 0), ('a', 7), ('b', 8), ('t', 9), ('\t', 9), ('n', 10), ('v', 11), ('f', 12), ('r', 13),
      ('e', 27), (' ', 32), ('"', 34), ('\\', 92), ('/', 47), ('N', 0x85), ('_', 0xA0),
      ('L', 0x2028), ('P', 0x2029)]
  (table.lookup c).map Char.ofNat

def escapeWidth? (c : Char) : Option Nat := [('x', 2), ('u', 4), ('U', 8)].lookup c

/-- What stands between the blanks of a quoted scalar. -/
def quotedRun? (double : Bool) : Nat → Cursor → Option (Points × Cursor)
  | 0, _ => none
  | fuel + 1, c =>
    let isPlain (d : Char) : Bool := !(d == '\'' || d == '"' || d == '\\' || isGap d)
    let more (head : Points) (c : Cursor) : Option (Points × Cursor) :=
      (quotedRun? double fuel c).map fun r => (head ++ r.1, r.2)
    if isPlain c.head then more (points (c.span isPlain)) (c.after isPlain)
    else if !double && c.head == '\'' && c.peek 1 == '\'' then more (points ['\'']) (c.skip 2)
    else if (double && c.head == '\'') || (!double && (c.head == '"' || c.head == '\\')) then
      more (points [c.head]) c.next
    else if double && c.head == '\\' then
      let c := c.next
      match escaped? c.head, escapeWidth? c.head with
      | some d, _ => more (points [d]) c.next
      | none, some width =>
        let c := c.next
        let digits := c.rest.take width
        match Text.ofHex? digits with
        | some n =>
          if digits.length = width ∧ n < 0x110000 then more [.ofNat n] (c.skip width) else none
        | none => none
      | none, none =>
        -- a backslash joins its line with the next one
        if isBreak c.head then
          match breaksWith? (fun d => d == ' ' || d == '\t') (c.rest.length + 1) c.takeBreak.2 with
          | some (breaks, c) => more (points breaks) c
          | none => none
        else none
    else some ([], c)

/-- A quoted scalar after its opening quote, up to the place after its closing one. -/
def quoted? (double : Bool) : Nat → Cursor → Option (Points × Cursor)
  | 0, _ => none
  | fuel + 1, c =>
    let isSpace (d : Char) : Bool := d == ' ' || d == '\t'
    match quotedRun? double (c.rest.length + 1) c with
    | none => none
    | some (run, c) =>
      if c.head = (if double then '"' else '\'') then some (run, c.next)
      else
        let spaces := c.span isSpace
        let c := c.after isSpace
        if c.head = ending then none
        else if isBreak c.head then
          let (first, c) := c.takeBreak
          match breaksWith? isSpace (c.rest.length + 1) c with
          | none => none
          | some (breaks, c) =>
            (quoted? double fuel c).map fun r => (run ++ points (folded first breaks) ++ r.1, r.2)
        else (quoted? double fuel c).map fun r => (run ++ points spaces ++ r.1, r.2)

/-- Whether a plain scalar ends before a character, given the one after it. -/
def endsPlain (inFlow : Bool) (c d : Char) : Bool :=
  isGap c || (c == ':' && (isGap d || (inFlow && [',', '[', ']', '\x7b', '\x7d'].contains d))) ||
    (inFlow && [',', '?', '[', ']', '\x7b', '\x7d'].contains c)

/-- The characters of a plain scalar up to the next gap. -/
def plainRun (inFlow : Bool) : Text → Text
  | [] => []
  | c :: rest => if endsPlain inFlow c (rest.headD ending) then [] else c :: plainRun inFlow rest

/-- The breaks after a first break in a plain scalar, with the blanks between them; the flag tells
that documents are parted there. -/
def plainBreaks : Nat → Cursor → Text × Cursor × Bool
  | 0, c => ([], c, false)
  | fuel + 1, c =>
    if c.head = ' ' then plainBreaks fuel c.next
    else if isBreak c.head then
      let (b, c) := c.takeBreak
      if c.atDocumentMark then ([], c, true)
      else
        let (breaks, c, parted) := plainBreaks fuel c
        (b ++ breaks, c, parted)
    else ([], c, false)

/-- The gap after a run of a plain scalar: what it counts as, where it ends, and whether it holds a
break. -/
def plainGap (c : Cursor) : Text × Cursor × Bool :=
  let spaces := c.span (· == ' ')
  let c := c.after (· == ' ')
  if isBreak c.head then
    let (first, c) := c.takeBreak
    if c.atDocumentMark then ([], c, true)
    else
      let (breaks, c, parted) := plainBreaks (c.rest.length + 1) c
      if parted then ([], c, true) else (folded first breaks, c, true)
  else (spaces, c, false)

/-- A plain scalar of a context with an indentation: its text, the place after it, and whether the
gap after it holds a break. -/
def plain (inFlow : Bool) (indent : Nat) : Nat → Cursor → Text × Cursor × Bool
  | 0, c => ([], c, false)
  | fuel + 1, c =>
    let run := plainRun inFlow c.rest
    let (gap, after, broken) := plainGap (c.skip run.length)
    let stop := gap = [] ∨ after.head = '#' ∨ (!inFlow ∧ after.column < indent)
    if stop then (run, after, broken)
    else if plainRun inFlow after.rest = [] then (run, after, broken)
    else
      let (text, last, broken) := plain inFlow indent fuel after
      (run ++ gap ++ text, last, broken)

/-- The blank lines before a block, and the widest indentation among them. -/
def leadingBreaks : Nat → Cursor → Nat → Text × Nat × Cursor
  | 0, c, widest => ([], widest, c)
  | fuel + 1, c, widest =>
    if c.head = ' ' then leadingBreaks fuel c.next (max widest c.next.column)
    else if isBreak c.head then
      let (b, c) := c.takeBreak
      let (breaks, widest, c) := leadingBreaks fuel c widest
      (b ++ breaks, widest, c)
    else ([], widest, c)

/-- Blanks up to a column. -/
def upToColumn (indent : Nat) : Nat → Cursor → Cursor
  | 0, c => c
  | fuel + 1, c =>
    if c.column < indent ∧ c.head = ' ' then upToColumn indent fuel c.next else c

def blockBreaks (indent : Nat) : Nat → Cursor → Text × Cursor
  | 0, c => ([], c)
  | fuel + 1, c =>
    let c := upToColumn indent c.rest.length c
    if isBreak c.head then
      let (b, c) := c.takeBreak
      let (breaks, c) := blockBreaks indent fuel c
      (b ++ breaks, c)
    else ([], c)

/-- What a block does with the breaks at its end: one is kept, or all, or none. -/
inductive Chomping
  | clip
  | keep
  | strip
deriving DecidableEq, Repr

/-- The lines of a block from a first line on, given the breaks before it. -/
def blockLines (fold : Bool) (chomping : Chomping) (indent : Nat) :
    Nat → Text → Cursor → Text × Cursor
  | 0, _, c => ([], c)
  | fuel + 1, breaks, c =>
    let isSpace (d : Char) : Bool := d == ' ' || d == '\t'
    let starts := !isSpace c.head
    let line := c.span fun d => !isBreakOrEnd d
    let c := c.after fun d => !isBreakOrEnd d
    let (first, c) := c.takeBreak
    let (further, c) := blockBreaks indent (c.rest.length + 1) c
    if c.column = indent ∧ c.head ≠ ending then
      let joint :=
        if fold && first == ['\n'] && starts && !isSpace c.head then
          if further = [] then [' '] else []
        else first
      let (text, c) := blockLines fold chomping indent fuel further c
      (breaks ++ line ++ joint ++ text, c)
    else
      let tail := match chomping with
        | .clip => first
        | .keep => first ++ further
        | .strip => []
      (breaks ++ line ++ tail, c)

/-- The marks after a block's opening character: how it ends and how far it is indented. -/
def blockHeader? (c : Cursor) : Option (Chomping × Option Nat × Cursor) :=
  let chomping? (d : Char) : Option Chomping :=
    if d = '+' then some .keep else if d = '-' then some .strip else none
  let increment? (d : Char) : Option Nat :=
    if d.isDigit then some (d.toNat - '0'.toNat) else none
  let (chomping, increment, c) :=
    match chomping? c.head, increment? c.head with
    | some k, _ =>
      match increment? c.next.head with
      | some n => (k, some n, c.skip 2)
      | none => (k, none, c.next)
    | none, some n =>
      match chomping? c.next.head with
      | some k => (k, some n, c.skip 2)
      | none => (.clip, some n, c.next)
    | none, none => (.clip, none, c)
  if increment = some 0 then none
  else if c.head = ' ' ∨ isBreakOrEnd c.head then some (chomping, increment, c)
  else none

/-- A block scalar after its opening character, in a context with an indentation. -/
def block? (fold : Bool) (minIndent : Nat) (c : Cursor) : Option (Text × Cursor) :=
  match blockHeader? c with
  | none => none
  | some (chomping, increment, c) =>
    let c := c.after (· == ' ')
    let c := if c.head = '#' then c.after (fun d => !isBreakOrEnd d) else c
    if !isBreakOrEnd c.head then none
    else
      let c := c.takeBreak.2
      let (breaks, indent, c) := match increment with
        | none =>
          let (breaks, widest, c) := leadingBreaks (c.rest.length + 1) c 0
          (breaks, max minIndent widest, c)
        | some n =>
          let indent := minIndent + n - 1
          let (breaks, c) := blockBreaks indent (c.rest.length + 1) c
          (breaks, indent, c)
      if c.column = indent ∧ c.head ≠ ending then
        some (blockLines fold chomping indent (c.rest.length + 1) breaks c)
      else some (if chomping = .keep then breaks else [], c)

end SolidityFlattener.Yaml
