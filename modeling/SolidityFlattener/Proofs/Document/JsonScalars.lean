import SolidityFlattener.Document.Json.Printer
import SolidityFlattener.Document.Json.Reader
import SolidityFlattener.Proofs.Text.Numerals

/-!
Strings, numbers and names written in JSON and read back.

Each character of a string is read from what it is written as, whatever comes after it: what is
escaped by name, what stands for itself, and what is escaped by its code units, one or two of them.
An integer ends where its digits do, so it is read back in front of anything that is no digit and
starts neither a fraction nor an exponent.
-/

namespace SolidityFlattener

variable {c : Char} {t rest : Text} {fuel n : ℕ}

/-! ### Code points -/

theorem Point.value_scalar (c : Char) : (Point.scalar c).value = c.toNat := rfl

theorem Point.value_scalar_valid (c : Char) :
    (Point.scalar c).value < 0xD800 ∨
      0xDFFF < (Point.scalar c).value ∧ (Point.scalar c).value < 0x110000 := c.valid

/-- A character is the code point with its number. -/
theorem Point.ofNat_value_scalar (c : Char) : Point.ofNat (Point.scalar c).value = .scalar c := by
  have hvalid := Point.value_scalar_valid c
  rw [Point.ofNat, dif_neg (by omega), Point.value_scalar, Char.ofNat_toNat]

namespace Json

open Points (units unitEscape jsonPoint)

/-! ### Escapes -/

theorem unit?_hex (h : n < 16 ^ 4) (rest : Text) :
    unit? (Text.hex 4 n ++ rest) = some (n, rest) := by
  have hvalue : Text.ofHex? (Text.hex 4 n) = some n := Text.ofHex?_hex h
  have hshape : ∃ a b c d, Text.hex 4 n = [a, b, c, d] := ⟨_, _, _, _, rfl⟩
  obtain ⟨a, b, c, d, hhex⟩ := hshape
  rw [hhex] at hvalue ⊢
  simp [unit?, hvalue]

/-- A code unit that is no first half of a pair is a code point of its own. -/
theorem unicode?_hex (h : n < 16 ^ 4) (hhigh : isHigh n = false) (rest : Text) :
    unicode? (Text.hex 4 n ++ rest) = some (.ofNat n, rest) := by
  unfold unicode?
  rw [unit?_hex h]
  simp only [hhigh, Bool.false_and, Bool.false_eq_true, if_false]
  split
  · next more =>
    cases unit? more <;> rfl
  · rfl

/-- Two code units that fit are one code point. -/
theorem unicode?_pair {high low : ℕ} (hhigh : isHigh high = true) (hlow : isLow low = true)
    (rest : Text) :
    unicode? (Text.hex 4 high ++ '\\' :: 'u' :: (Text.hex 4 low ++ rest)) =
      some (.ofNat (joined high low), rest) := by
  have hhigh_lt : high < 16 ^ 4 := by
    simp only [isHigh, Bool.and_eq_true, decide_eq_true_eq] at hhigh
    omega
  have hlow_lt : low < 16 ^ 4 := by
    simp only [isLow, Bool.and_eq_true, decide_eq_true_eq] at hlow
    omega
  unfold unicode?
  rw [unit?_hex hhigh_lt]
  simp only [unit?_hex hlow_lt, hhigh, hlow, Bool.and_self, if_true]

/-- The code units of a character are read as the character. -/
theorem point?_units (c : Char) (rest : Text) :
    point? ((units (Point.scalar c).value).flatMap unitEscape ++ rest) =
      some (.scalar c, rest) := by
  have hvalid := Point.value_scalar_valid c
  have hself := Point.ofNat_value_scalar c
  generalize (Point.scalar c).value = n at hvalid hself
  by_cases hsmall : n < 0x10000
  · have hhigh : isHigh n = false := by
      simp only [isHigh, Bool.and_eq_false_iff, decide_eq_false_iff_not]
      omega
    have hread := unicode?_hex (by omega) hhigh rest
    rw [hself] at hread
    simpa [units, hsmall, unitEscape, point?] using hread
  · have hhigh : isHigh (0xD800 + (n - 0x10000) / 0x400) = true := by
      simp only [isHigh, Bool.and_eq_true, decide_eq_true_eq]
      omega
    have hlow : isLow (0xDC00 + (n - 0x10000) % 0x400) = true := by
      simp only [isLow, Bool.and_eq_true, decide_eq_true_eq]
      omega
    have hjoined : joined (0xD800 + (n - 0x10000) / 0x400) (0xDC00 + (n - 0x10000) % 0x400) =
        n := by
      unfold joined
      omega
    have hread := unicode?_pair hhigh hlow rest
    rw [hjoined, hself] at hread
    simpa [units, hsmall, unitEscape, point?] using hread

theorem point?_self (hne : c ≠ '\\') (hlarge : 0x20 ≤ c.toNat) (rest : Text) :
    point? (c :: rest) = some (.scalar c, rest) := by
  have hcontrol : ¬c.val.toNat < 0x20 := Nat.not_lt.2 hlarge
  unfold point?
  split
  · next heq => exact absurd (List.cons_eq_cons.1 heq).1 hne
  · next heq => exact absurd (List.cons_eq_cons.1 heq).1 hne
  · next heq => exact absurd (List.cons_eq_cons.1 heq).1 hne
  · next heq =>
    obtain ⟨rfl, rfl⟩ := List.cons_eq_cons.1 heq
    rw [if_neg hcontrol]
  · next heq => cases heq

/-- Each character is read from what it is written as. -/
theorem point?_jsonPoint (c : Char) (rest : Text) :
    point? (jsonPoint (.scalar c) ++ rest) = some (.scalar c, rest) := by
  unfold jsonPoint
  split_ifs with hquote hslash hline hreturn htab hback hfeed hself
  · obtain rfl := Point.scalar.inj hquote
    rfl
  · obtain rfl := Point.scalar.inj hslash
    rfl
  · obtain rfl := Point.scalar.inj hline
    rfl
  · obtain rfl := Point.scalar.inj hreturn
    rfl
  · obtain rfl := Point.scalar.inj htab
    rfl
  · obtain rfl := Point.scalar.inj hback
    rfl
  · obtain rfl := Point.scalar.inj hfeed
    rfl
  · rw [Point.value_scalar, Char.ofNat_toNat]
    exact point?_self (fun heq => hslash (congrArg Point.scalar heq)) hself.1 rest
  · exact point?_units c rest

/-- What a character is written as does not start with a quote. -/
theorem exists_cons_jsonPoint (c : Char) :
    ∃ first tail, jsonPoint (.scalar c) = first :: tail ∧ first ≠ '"' := by
  unfold jsonPoint
  split_ifs with hquote _ _ _ _ _ _ hself
  iterate 7 exact ⟨_, _, rfl, by decide⟩
  · refine ⟨_, _, rfl, fun heq => hquote ?_⟩
    rw [Point.value_scalar, Char.ofNat_toNat] at heq
    rw [heq]
  · unfold units
    split_ifs
    · exact ⟨_, _, rfl, by decide⟩
    · exact ⟨_, _, rfl, by decide⟩

/-! ### Strings -/

theorem string?_cons {first : Char} {tail : Text} (hne : first ≠ '"') (fuel : ℕ) :
    string? (fuel + 1) (first :: tail) =
      (point? (first :: tail)).bind fun p => (string? fuel p.2).map fun r => (p.1 :: r.1, r.2) := by
  rw [string?]
  · cases point? (first :: tail) <;> rfl
  · rintro rest heq
    exact hne (List.cons_eq_cons.1 heq).1

/-- A string is read up to its closing quote, given a step for each of its characters and one. -/
theorem string?_json (t rest : Text) (hfuel : t.length < fuel) :
    string? fuel ((Points.ofText t).flatMap jsonPoint ++ '"' :: rest) =
      some (Points.ofText t, rest) := by
  induction t generalizing fuel with
  | nil =>
      obtain ⟨fuel, rfl⟩ := Nat.exists_eq_add_one_of_ne_zero (Nat.ne_zero_of_lt hfuel)
      rfl
  | cons c t ih =>
      obtain ⟨fuel, rfl⟩ := Nat.exists_eq_add_one_of_ne_zero (Nat.ne_zero_of_lt hfuel)
      have hrest := ih (show t.length < fuel by simpa using hfuel)
      have hread := point?_jsonPoint c ((Points.ofText t).flatMap jsonPoint ++ '"' :: rest)
      obtain ⟨first, tail, hcons, hne⟩ := exists_cons_jsonPoint c
      rw [hcons] at hread
      have hsplit : (Points.ofText (c :: t)).flatMap jsonPoint ++ '"' :: rest =
          first :: (tail ++ ((Points.ofText t).flatMap jsonPoint ++ '"' :: rest)) := by
        simp [Points.ofText, hcons]
      rw [hsplit, string?_cons hne, ← List.cons_append, hread]
      simp only [Option.bind_some, hrest]
      rfl

/-! ### Integers -/

/-- What can follow a value: a blank, a comma, a closing bracket or the end. -/
def Delimited (rest : Text) : Prop :=
  ∀ c, rest.head? = some c → isSpace c ∨ c = ',' ∨ c = ']' ∨ c = '\x7d'

/-- What can follow a value continues no number. -/
theorem Delimited.ends_number (h : Delimited rest) {c : Char} (hc : rest.head? = some c) :
    c.isDigit = false ∧ c ≠ '.' ∧ c ≠ 'e' ∧ c ≠ 'E' := by
  have hall : ∀ c ∈ [' ', '\n', '\r', '\t', ',', ']', '\x7d'],
      c.isDigit = false ∧ c ≠ '.' ∧ c ≠ 'e' ∧ c ≠ 'E' := by simp
  refine hall c ?_
  simpa only [isSpace, Bool.or_eq_true, beq_iff_eq, or_assoc, List.mem_cons, List.not_mem_nil,
    or_false] using h c hc

theorem digits_append (hdigits : ∀ c ∈ t, c.isDigit) (hrest : Delimited rest) :
    digits (t ++ rest) = t ∧ (t ++ rest).dropWhile Char.isDigit = rest := by
  have hstop : rest.takeWhile Char.isDigit = [] ∧ rest.dropWhile Char.isDigit = rest := by
    cases rest with
    | nil => exact ⟨rfl, rfl⟩
    | cons c rest =>
        have hc := (hrest.ends_number (c := c) rfl).1
        exact ⟨List.takeWhile_cons_of_neg (by simp [hc]), List.dropWhile_cons_of_neg (by simp [hc])⟩
  rw [digits, List.takeWhile_append_of_pos hdigits, List.dropWhile_append_of_pos hdigits,
    hstop.1, hstop.2, List.append_nil]
  exact ⟨rfl, rfl⟩

theorem wholeDigits?_decimal (n : ℕ) (hrest : Delimited rest) :
    wholeDigits? (Text.decimal n ++ rest) = some (Text.decimal n, rest) := by
  by_cases hzero : n = 0
  · subst hzero
    rw [Text.decimal_zero]
    rfl
  · obtain ⟨htake, hdrop⟩ := digits_append (t := Text.decimal n)
      (fun c hc => Text.isDigit_of_mem_decimal hc) hrest
    have hhead := Text.head?_decimal_ne hzero
    rw [wholeDigits?, htake, hdrop, if_neg (Text.decimal_ne_nil n)]
    intro more heq
    rw [← List.head?_append_of_ne_nil _ (Text.decimal_ne_nil n), heq] at hhead
    exact hhead rfl

theorem fraction_of_delimited (h : Delimited rest) : fraction rest = ([], rest) := by
  unfold fraction
  split
  · exact absurd rfl (h.ends_number rfl).2.1
  · rfl

theorem exponent_of_delimited (h : Delimited rest) : exponent rest = (none, rest) := by
  unfold exponent
  split
  · next e rest =>
    obtain ⟨-, -, hsmall, hlarge⟩ := h.ends_number (c := e) rfl
    rw [if_neg (by tauto)]
  · rfl

theorem unsigned?_decimal (negative : Bool) (n : ℕ) (hrest : Delimited rest) :
    unsigned? negative (Text.decimal n ++ rest) =
      some (.integer (if negative then -(n : Int) else n), rest) := by
  rw [unsigned?, wholeDigits?_decimal n hrest]
  simp [fraction_of_delimited hrest, exponent_of_delimited hrest, Text.ofDecimal_decimal]

theorem exists_cons_decimal (n : ℕ) :
    ∃ digit tail, Text.decimal n = digit :: tail ∧ digit.isDigit := by
  obtain ⟨digit, tail, hdigits⟩ := List.exists_cons_of_ne_nil (Text.decimal_ne_nil n)
  refine ⟨digit, tail, hdigits, Text.isDigit_of_mem_decimal (n := n) ?_⟩
  rw [hdigits]
  exact List.mem_cons_self

theorem after?_of_ne {first other : Char} (h : first ≠ other) (start t : Text) :
    after? (first :: start) (other :: t) = none := by
  simp [after?, List.isPrefixOf, h]

theorem number?_decimalInt (i : Int) (hrest : Delimited rest) :
    number? (Text.decimalInt i ++ rest) = some (.integer i, rest) := by
  cases i with
  | ofNat n =>
      obtain ⟨digit, tail, hdigits, hdigit⟩ := exists_cons_decimal n
      have hread := unsigned?_decimal false n hrest
      rw [Text.decimalInt, number?]
      · exact hread
      · intro more heq
        rw [hdigits] at heq
        rw [(List.cons_eq_cons.1 heq).1] at hdigit
        exact absurd hdigit (by decide)
  | negSucc n =>
      obtain ⟨digit, tail, hdigits, hdigit⟩ := exists_cons_decimal (n + 1)
      have hread := unsigned?_decimal true (n + 1) hrest
      have hname : after? "Infinity".toList (Text.decimal (n + 1) ++ rest) = none := by
        rw [hdigits]
        refine after?_of_ne (fun heq => ?_) _ _
        rw [← heq] at hdigit
        exact absurd hdigit (by decide)
      rw [Text.decimalInt, List.cons_append, number?, hname]
      exact hread

/-! ### Names -/

theorem named?_of_head {first : Char} (h : first ∉ ['n', 't', 'f', 'N', 'I']) (tail : Text) :
    named? (first :: tail) = none := by
  have hnone : ∀ start ∈ ['n', 't', 'f', 'N', 'I'], ∀ name : Text,
      after? (start :: name) (first :: tail) = none := by
    intro start hstart name
    refine after?_of_ne (fun heq => ?_) _ _
    exact h (heq ▸ hstart)
  rw [named?, List.findSome?_eq_none_iff]
  intro entry hentry
  simp only [List.mem_cons, List.not_mem_nil, or_false] at hentry
  rw [Option.map_eq_none_iff]
  rcases hentry with rfl | rfl | rfl | rfl | rfl
  · exact hnone 'n' (by decide) _
  · exact hnone 't' (by decide) _
  · exact hnone 'f' (by decide) _
  · exact hnone 'N' (by decide) _
  · exact hnone 'I' (by decide) _

theorem named?_null (rest : Text) : named? ("null".toList ++ rest) = some (.null, rest) := rfl

theorem named?_bool (b : Bool) (rest : Text) :
    named? ((Scalar.bool b).json ++ rest) = some (.bool b, rest) := by
  cases b <;> rfl

/-- The characters that start something else than a number. -/
def otherStarts : Text :=
  [' ', '\n', '\r', '\t', '"', '[', ']', '\x7b', '\x7d', 'n', 't', 'f', 'N', 'I']

theorem exists_cons_decimalInt (i : Int) :
    ∃ first tail, Text.decimalInt i = first :: tail ∧ first ∉ otherStarts := by
  cases i with
  | ofNat n =>
      obtain ⟨digit, tail, hdigits, hdigit⟩ := exists_cons_decimal n
      have hothers : ∀ c ∈ otherStarts, c.isDigit = false := by simp [otherStarts]
      refine ⟨digit, tail, hdigits, fun hmem => ?_⟩
      cases (hothers digit hmem).symm.trans hdigit
  | negSucc n => exact ⟨'-', _, rfl, by decide⟩

theorem named?_decimalInt (i : Int) (rest : Text) :
    named? (Text.decimalInt i ++ rest) = none := by
  obtain ⟨first, tail, hcons, hfirst⟩ := exists_cons_decimalInt i
  have hletters : ∀ c ∈ ['n', 't', 'f', 'N', 'I'], c ∈ otherStarts := by simp [otherStarts]
  rw [hcons]
  exact named?_of_head (fun hmem => hfirst (hletters first hmem)) _

end Json

end SolidityFlattener
