import SolidityFlattener.Document.Value

/-!
A place in a YAML text: what is left of it, and the line and column.

Reading past the end gives NUL, which no YAML text holds.
-/

namespace SolidityFlattener.Yaml

structure Cursor where
  rest : Text
  index : Nat
  line : Nat
  column : Nat
deriving DecidableEq, Repr

/-- The character read at the end of a text. -/
def ending : Char := Char.ofNat 0

def isBreak (c : Char) : Bool :=
  c == '\n' || c == '\r' || c.val.toNat == 0x85 || c.val.toNat == 0x2028 || c.val.toNat == 0x2029

def isBreakOrEnd (c : Char) : Bool := isBreak c || c == ending

/-- Whether a character parts words: a blank, a break or the end. -/
def isGap (c : Char) : Bool := c == ' ' || c == '\t' || isBreakOrEnd c

def isAllowed (c : Char) : Bool :=
  let n := c.val.toNat
  n == 0x09 || n == 0x0A || n == 0x0D || (0x20 ≤ n && n ≤ 0x7E) || n == 0x85 ||
    (0xA0 ≤ n && n ≤ 0xD7FF) || (0xE000 ≤ n && n ≤ 0xFFFD) || 0x10000 ≤ n

def byteOrderMark : Char := Char.ofNat 0xFEFF

namespace Cursor

def start (t : Text) : Cursor := ⟨t, 0, 0, 0⟩

def peek (c : Cursor) (n : Nat) : Char := (c.rest.drop n).headD ending

def head (c : Cursor) : Char := c.rest.headD ending

/-- One character further. A byte order mark takes no column. -/
def next (c : Cursor) : Cursor :=
  match c.rest with
  | [] => c
  | d :: rest =>
    if isBreak d && !(d == '\r' && rest.headD ending == '\n') then
      ⟨rest, c.index + 1, c.line + 1, 0⟩
    else ⟨rest, c.index + 1, c.line, if d = byteOrderMark then c.column else c.column + 1⟩

def skip (c : Cursor) : Nat → Cursor
  | 0 => c
  | n + 1 => c.next.skip n

/-- The run of characters of a kind at a place. -/
def span (p : Char → Bool) (c : Cursor) : Text := c.rest.takeWhile p

/-- The place after a run of characters of a kind. -/
def after (p : Char → Bool) (c : Cursor) : Cursor := c.skip (c.span p).length

/-- A line break at a place, as it counts in a scalar, and the place after it. -/
def takeBreak (c : Cursor) : Text × Cursor :=
  if c.head = '\r' ∧ c.peek 1 = '\n' then (['\n'], c.skip 2)
  else if c.head = '\n' ∨ c.head = '\r' ∨ c.head.val.toNat = 0x85 then (['\n'], c.next)
  else if isBreak c.head then ([c.head], c.next)
  else ([], c)

/-- Whether a line of three given characters parts documents here. -/
def atMark (c : Cursor) (mark : Text) : Bool := mark.isPrefixOf c.rest && isGap (c.peek 3)

def atDocumentMark (c : Cursor) : Bool := c.atMark ['-', '-', '-'] || c.atMark ['.', '.', '.']

end Cursor

end SolidityFlattener.Yaml
