import SolidityFlattener.Proofs.Source.Scan
import SolidityFlattener.Proofs.Source.Declarations

/-!
The place of an import target in a text.

A slot is a text cut around the quoted target of an import statement on one line of its own, above
the first declaration. Whatever target is put there, the statement stays one piece with that target,
all other pieces stay as they are, and the bases are read from further down.
-/

namespace SolidityFlattener.Source

variable {above below : List Text} {l target front rest : Text} {c : Char}
  {held : Option (List Text)}

/-! ### Pieces of lines put together -/

/-- The lines of the statement that is still open after some lines, if one is. -/
def heldAfter : Option (List Text) → List Text → Option (List Text)
  | held, [] => held
  | none, l :: rest =>
    if startsImport l ∧ ¬endsStatement l then heldAfter (some [l]) rest else heldAfter none rest
  | some held, l :: rest =>
    if endsStatement l then heldAfter none rest else heldAfter (some (held ++ [l])) rest

/-- After lines that leave no statement open the next line starts a piece. -/
theorem piecesAfter_append (h : heldAfter held above = none) (below : List Text) :
    piecesAfter held (above ++ below) = piecesAfter held above ++ pieces below := by
  fun_induction piecesAfter held above with
  | case1 => rfl
  | case2 held => simp [heldAfter] at h
  | case3 l rest hstarts hends ih =>
      have hrest := ih (by simpa [heldAfter, hends] using h)
      simp [piecesAfter, hstarts, hends, hrest]
  | case4 l rest hstarts hends ih =>
      have hrest := ih (by simpa [heldAfter, hstarts, hends] using h)
      simp [piecesAfter, hstarts, hends, hrest]
  | case5 l rest hstarts ih =>
      have hrest := ih (by simpa [heldAfter, hstarts] using h)
      simp [piecesAfter, hstarts, hrest]
  | case6 held l rest hends ih =>
      have hrest := ih (by simpa [heldAfter, hends] using h)
      simp [piecesAfter, hends, hrest]
  | case7 held l rest hends ih =>
      have hrest := ih (by simpa [heldAfter, hends] using h)
      simp [piecesAfter, hends, hrest]

/-- A statement on a line of its own is a piece of its own. -/
theorem pieces_around (habove : heldAfter none above = none) (hstarts : startsImport l)
    (hends : endsStatement l ∨ below = []) :
    pieces (above ++ l :: below) = pieces above ++ .statement [l] :: pieces below := by
  rw [pieces, piecesAfter_append habove]
  congr 1
  rw [pieces, piecesAfter, if_pos hstarts]
  split_ifs with hend
  · rfl
  · obtain rfl : below = [] := hends.resolve_left hend
    rfl

/-! ### Slots -/

def isQuote (c : Char) : Bool := c == '"' || c == '\''

/-- A text that an import statement can have between its quotes, and that names something. -/
structure IsTarget (target : Text) : Prop where
  ne_nil : target ≠ []
  oneLine : target.OneLine
  unquoted : ∀ c ∈ target, isQuote c = false

/-- A text around the target of an import statement that takes one line, with no declaration above
it. -/
structure Slot where
  before : Text
  front : Text
  opening : Char
  closing : Char
  back : Text
  after : Text
  above : List Text
  below : List Text
  before_lines : before.lines = above ++ [[]]
  after_lines : after.lines = [] :: below
  above_held : heldAfter none above = none
  above_undeclared : ∀ l ∈ above, declaresLibrary l = false ∧ afterDeclaration? l = none
  front_oneLine : front.OneLine
  front_imports : startsImport front
  front_unquoted : ∀ c ∈ front, isQuote c = false
  opening_quote : isQuote opening
  closing_quote : isQuote closing
  back_oneLine : back.OneLine
  ends : endsStatement front ∨ endsStatement back ∨ below = []

theorem startsImport_append (h : startsImport front) (hc : Text.isWord c = false) :
    startsImport (front ++ c :: rest) := by
  unfold startsImport at *
  rw [Bool.and_eq_true] at h ⊢
  obtain ⟨hbegins, hword⟩ := h
  obtain ⟨more, rfl⟩ := List.isPrefixOf_iff_prefix.1 hbegins
  refine ⟨List.isPrefixOf_iff_prefix.2 ⟨more ++ c :: rest, by simp⟩, ?_⟩
  cases more with
  | nil => simpa [Text.atWordEnd] using hc
  | cons d more => simpa [Text.atWordEnd] using hword

theorem isQuote_iff : isQuote c ↔ c = '"' ∨ c = '\'' := by simp [isQuote]

theorem not_isWord_of_isQuote (h : isQuote c) : Text.isWord c = false := by
  rcases isQuote_iff.1 h with rfl | rfl <;> decide +kernel

/-- A text without quotes stays as it is when all quotes are made one kind. -/
theorem map_quotes_of_unquoted {t : Text} (ht : ∀ c ∈ t, isQuote c = false) :
    (t.map fun c => if c = '\'' then '"' else c) = t := by
  refine (List.map_congr_left fun c hc => ?_).trans (List.map_id t)
  have hc := ht c hc
  simp_all [isQuote]

theorem ne_quote_of_unquoted {t : Text} (ht : ∀ c ∈ t, isQuote c = false) :
    ∀ c ∈ t, (c != '"') = true := by
  intro c hc
  have hc := ht c hc
  simp_all [isQuote]

/-- What stands in the first pair of quotes is the target. -/
theorem specifier?_quoted {opening closing : Char} {back : Text}
    (hfront : ∀ c ∈ front, isQuote c = false) (hopening : isQuote opening)
    (htarget : ∀ c ∈ target, isQuote c = false) (hclosing : isQuote closing) :
    specifier? (front ++ opening :: (target ++ closing :: back)) =
      some (Text.forwardSlashes target) := by
  have hquote : ∀ {c}, isQuote c → (if c = '\'' then '"' else c) = '"' := by
    intro c hc
    rcases isQuote_iff.1 hc with rfl | rfl <;> rfl
  have hdrop : ∀ t : Text, (front ++ '"' :: (target ++ '"' :: t)).dropWhile (· != '"') =
      '"' :: (target ++ '"' :: t) := by
    intro t
    rw [List.dropWhile_append_of_pos (ne_quote_of_unquoted hfront)]
    rfl
  have htake : ∀ t : Text, (target ++ '"' :: t).takeWhile (· != '"') = target := by
    intro t
    rw [List.takeWhile_append_of_pos (ne_quote_of_unquoted htarget)]
    simp
  unfold specifier?
  simp only [List.map_append, List.map_cons, map_quotes_of_unquoted hfront,
    map_quotes_of_unquoted htarget, hquote hopening, hquote hclosing, hdrop, htake]
  simp

namespace Slot

variable (slot : Slot) {a b : Text}

/-- The line of the slot with a target in it. -/
def line (target : Text) : Text :=
  slot.front ++ slot.opening :: (target ++ slot.closing :: slot.back)

def fill (target : Text) : Text := slot.before ++ (slot.line target ++ slot.after)

theorem startsImport_line (target : Text) : startsImport (slot.line target) :=
  startsImport_append slot.front_imports (not_isWord_of_isQuote slot.opening_quote)

theorem oneLine_line (htarget : IsTarget target) : (slot.line target).OneLine := by
  have hquote : ∀ {c}, isQuote c → c ≠ '\r' ∧ c ≠ '\n' := by
    intro c hc
    rcases isQuote_iff.1 hc with rfl | rfl <;> decide
  exact Text.oneLine_append.2 ⟨slot.front_oneLine, Text.oneLine_cons.2
    ⟨hquote slot.opening_quote, Text.oneLine_append.2 ⟨htarget.oneLine, Text.oneLine_cons.2
      ⟨hquote slot.closing_quote, slot.back_oneLine⟩⟩⟩⟩

theorem lines_fill (htarget : IsTarget target) :
    (slot.fill target).lines = slot.above ++ slot.line target :: slot.below :=
  Text.lines_append_line slot.before_lines slot.after_lines (slot.oneLine_line htarget)
    (by simp [line])

theorem ends_line (target : Text) : endsStatement (slot.line target) ∨ slot.below = [] := by
  rcases slot.ends with hfront | hback | hbelow
  · exact .inl (by simp_all [endsStatement, line])
  · exact .inl (by simp_all [endsStatement, line])
  · exact .inr hbelow

theorem pieces_fill (htarget : IsTarget target) :
    pieces (slot.fill target).lines =
      pieces slot.above ++ .statement [slot.line target] :: pieces slot.below := by
  rw [slot.lines_fill htarget]
  exact pieces_around slot.above_held (slot.startsImport_line target) (slot.ends_line target)

theorem target?_line (htarget : IsTarget target) :
    Piece.target? (.statement [slot.line target]) = some (Text.forwardSlashes target) := by
  have hspecifier : specifier? (slot.line target) = some (Text.forwardSlashes target) :=
    specifier?_quoted slot.front_unquoted slot.opening_quote htarget.unquoted slot.closing_quote
  simp [Piece.target?, hspecifier, Text.forwardSlashes, htarget.ne_nil]

/-- The targets of the statements above the slot. -/
def targetsAbove : List Text := (pieces slot.above).filterMap Piece.target?

/-- The targets of the statements below the slot. -/
def targetsBelow : List Text := (pieces slot.below).filterMap Piece.target?

/-- A scan of a filled slot finds the target among those around it. -/
theorem specifiers_fill (htarget : IsTarget target) :
    (scan (slot.fill target)).specifiers =
      (slot.targetsAbove ++ Text.forwardSlashes target :: slot.targetsBelow).eraseDups := by
  simp only [scan, Scan.ofPieces, slot.pieces_fill htarget, List.filterMap_append,
    List.filterMap_cons, slot.target?_line htarget]
  rfl

/-- Nothing else that a scan finds depends on the target. -/
theorem scan_fill (ha : IsTarget a) (hb : IsTarget b) :
    (scan (slot.fill a)).header = (scan (slot.fill b)).header ∧
      (scan (slot.fill a)).body = (scan (slot.fill b)).body := by
  have hsingles : ∀ {target}, IsTarget target →
      (pieces (slot.fill target).lines).filterMap Piece.line? =
        (pieces slot.above).filterMap Piece.line? ++ (pieces slot.below).filterMap Piece.line? := by
    intro target htarget
    rw [slot.pieces_fill htarget, List.filterMap_append, List.filterMap_cons]
    rfl
  simp only [scan, Scan.ofPieces, hsingles ha, hsingles hb, and_self]

/-- The bases are looked for below the slot. -/
theorem bases_fill (ha : IsTarget a) (hb : IsTarget b) :
    bases (slot.fill a) = bases (slot.fill b) := by
  have hbelow : ∀ {target}, IsTarget target →
      fromDeclaration? (slot.fill target).lines = fromDeclaration? slot.below := by
    intro target htarget
    have habove : ∀ l ∈ slot.above, IsPassed l := fun l hl => .inr (slot.above_undeclared l hl)
    rw [slot.lines_fill htarget, fromDeclaration?_of_passed habove, fromDeclaration?,
      if_pos (slot.startsImport_line target)]
  simp only [bases, hbelow ha, hbelow hb]

end Slot

end SolidityFlattener.Source
