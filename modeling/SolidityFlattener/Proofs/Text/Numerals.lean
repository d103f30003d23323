import SolidityFlattener.Text.Hex
import Mathlib

/-!
Numerals read back.

A hexadecimal numeral of a width that the number fits in is read as the number. A decimal numeral is
not empty, holds digits only and starts with a zero only if it is the zero, so it ends where the
digits end and is read as the number.
-/

namespace SolidityFlattener.Text

variable {n width : ℕ} {rest : Text}

/-! ### Hexadecimal numerals -/

theorem hexValue?_hexDigit (h : n < 16) : hexValue? (hexDigit n) = some n := by
  revert n
  decide

@[simp] theorem length_hex (width n : ℕ) : (hex width n).length = width := by
  induction width generalizing n with
  | zero => rfl
  | succ width ih => rw [hex, List.length_append, ih, List.length_singleton]

theorem ofDigits_append_singleton (base : ℕ) (digits : List ℕ) (digit : ℕ) :
    ofDigits base (digits ++ [digit]) = ofDigits base digits * base + digit := by
  simp [ofDigits]

theorem ofHex?_append_singleton {digits : Text} {value : ℕ} (h : ofHex? digits = some value)
    (hn : n < 16) : ofHex? (digits ++ [hexDigit n]) = some (value * 16 + n) := by
  obtain ⟨values, hvalues, rfl⟩ := Option.map_eq_some_iff.1 h
  rw [ofHex?, List.mapM_append, hvalues]
  simp [hexValue?_hexDigit hn, ofDigits_append_singleton]

theorem ofHex?_hex (h : n < 16 ^ width) : ofHex? (hex width n) = some n := by
  induction width generalizing n with
  | zero =>
      obtain rfl : n = 0 := by simpa using h
      rfl
  | succ width ih =>
      have hfront : n / 16 < 16 ^ width := by
        rw [Nat.div_lt_iff_lt_mul (by omega), ← Nat.pow_succ]
        exact h
      rw [hex, ofHex?_append_singleton (ih hfront) (Nat.mod_lt n (by omega)),
        Nat.div_add_mod' n 16]

/-! ### Decimal numerals -/

theorem ofDecimal_decimal (n : ℕ) : ofDecimal (decimal n) = n := by
  have hfold : ∀ (digits : Text) (start : ℕ),
      (digits.map fun c => c.toNat - '0'.toNat).foldl (fun n d => n * 10 + d) start =
        Nat.ofDigitChars 10 digits start := by
    intro digits start
    rw [List.foldl_map, Nat.ofDigitChars_eq_foldl]
    refine congrArg (fun f => digits.foldl f start) ?_
    funext value c
    rw [Nat.mul_comm]
  rw [ofDecimal, ofDigits, hfold, decimal, Nat.ofDigitChars_ten_toDigits]

theorem isDigit_of_mem_decimal {c : Char} (h : c ∈ decimal n) : c.isDigit :=
  Nat.isDigit_of_mem_toDigits (by omega) (by omega) h

theorem decimal_ne_nil (n : ℕ) : decimal n ≠ [] := Nat.toDigits_ne_nil

theorem decimal_zero : decimal 0 = ['0'] := by decide

/-- Only the numeral of zero starts with a zero. -/
theorem head?_decimal_ne (h : n ≠ 0) : (decimal n).head? ≠ some '0' := by
  induction n using Nat.strongRecOn with
  | ind n ih =>
      rw [decimal, Nat.toDigits_eq_if (by omega)]
      split
      · simpa [Nat.digitChar_eq_zero] using h
      · next hlarge =>
        have hfront := ih (n / 10) (by omega) (by omega)
        rwa [List.head?_append_of_ne_nil _ Nat.toDigits_ne_nil]

end SolidityFlattener.Text
