import SolidityFlattener.Text.Hex

/-!
Binary floating point numbers of 64 bits, held as their bits, and their decimal text.

Reading rounds the exact decimal value to the nearest number, a tie to the even one.
Writing takes the fewest significant digits that read back, and of two such decimals the nearer:
for one digit after another, the two neighbours of the value on that decimal grid are tried
against the interval of reals that round to it, all in exact arithmetic.
-/

namespace SolidityFlattener

/-- A binary floating point number of 64 bits: sign, eleven exponent bits, fraction. -/
structure Binary64 where
  bits : UInt64
deriving DecidableEq, Repr

namespace Binary64

def infinityBits : Nat := 0x7FF * Nat.pow 2 52

def ofMagnitude (negative : Bool) (bits : Nat) : Binary64 :=
  ⟨UInt64.ofNat (bits + if negative then Nat.pow 2 63 else 0)⟩

def infinity (negative : Bool) : Binary64 := ofMagnitude negative infinityBits

def nan : Binary64 := ofMagnitude false (infinityBits + Nat.pow 2 51)

def magnitude (x : Binary64) : Nat := x.bits.toNat % Nat.pow 2 63

def isNegative (x : Binary64) : Bool := Nat.pow 2 63 ≤ x.bits.toNat

def isZero (x : Binary64) : Bool := x.magnitude == 0

def isNan (x : Binary64) : Bool := infinityBits < x.magnitude

def isInfinite (x : Binary64) : Bool := x.magnitude == infinityBits

/-- A quotient rounded to the nearest natural number, a tie to the even one. -/
def divNearest (num den : Nat) : Nat :=
  let down := num / den
  let rest := 2 * (num % den)
  if rest < den then down
  else if den < rest then down + 1
  else if down % 2 = 0 then down else down + 1

/-- The exponent of the highest power of two that is not above a positive quotient. -/
def binaryExponent (num den : Nat) : Int :=
  let guess : Int := num.log2 - den.log2
  if den * Nat.pow 2 guess.toNat ≤ num * Nat.pow 2 (-guess).toNat then guess else guess - 1

/-- The magnitude bits of the number nearest to a positive quotient. A significand of `2 ^ 53` or
below `2 ^ 52` needs no case of its own, because exponent and fraction are adjacent fields. -/
def nearestBits (num den : Nat) : Nat :=
  let q := max (binaryExponent num den - 52) (-1074)
  let significand := divNearest (num * Nat.pow 2 (-q).toNat) (den * Nat.pow 2 q.toNat)
  min (significand + (q + 1074).toNat * Nat.pow 2 52) infinityBits

/-- The number nearest to `digits · 10 ^ exponent`. Far outside the range the answer is known
before any power is taken. -/
def ofDecimal (negative : Bool) (digits : Nat) (exponent : Int) : Binary64 :=
  ofMagnitude negative <|
    if digits = 0 then 0
    else if 400 < exponent then infinityBits
    else if exponent + (Text.decimal digits).length < -400 then 0
    else nearestBits (digits * Nat.pow 10 exponent.toNat) (Nat.pow 10 (-exponent).toNat)

/-- A positive finite number as a quotient, with the ends of the interval of reals that round to it
over the same denominator, and whether the ends belong to the interval. -/
structure Interval where
  low : Nat
  value : Nat
  high : Nat
  den : Nat
  closed : Bool

def interval (x : Binary64) : Interval :=
  let exponent := x.magnitude / Nat.pow 2 52
  let fraction := x.magnitude % Nat.pow 2 52
  let significand := if exponent = 0 then fraction else fraction + Nat.pow 2 52
  let q : Int := (max exponent 1 : Nat) - 1077
  let scale := Nat.pow 2 q.toNat
  { low := (4 * significand - if fraction = 0 ∧ 1 < exponent then 1 else 2) * scale
    value := 4 * significand * scale
    high := (4 * significand + 2) * scale
    den := Nat.pow 2 (-q).toNat
    closed := significand % 2 = 0 }

/-- The integer that a number is, if it is one. -/
def toInt? (x : Binary64) : Option Int :=
  let i := interval x
  if x.isNan || x.isInfinite || i.value % i.den != 0 then none
  else
    let size : Int := (i.value / i.den : Nat)
    some (if x.isNegative then -size else size)

/-- How many digits stand before the decimal point; zero or negative for a number below one. -/
def pointPosition (i : Interval) : Int :=
  if i.den ≤ i.value then (Text.decimal (i.value / i.den)).length
  -- the least positive number is above `10 ^ -400`, so the range is never used up
  else -(((List.range 400).takeWhile fun j => i.value * Nat.pow 10 (j + 1) < i.den).length : Int)

/-- Whether `digits · 10 ^ exponent` rounds to the number. -/
def Interval.holds (i : Interval) (digits : Nat) (exponent : Int) : Bool :=
  let point := digits * Nat.pow 10 exponent.toNat * i.den
  let unit := Nat.pow 10 (-exponent).toNat
  (i.low * unit < point && point < i.high * unit) ||
    (i.closed && (point == i.low * unit || point == i.high * unit))

/-- The decimal of a given grid that reads back, if there is one: of two the nearer, of two equally
near ones the even one. -/
def Interval.onGrid (i : Interval) (exponent : Int) : Option Nat :=
  let num := i.value * Nat.pow 10 (-exponent).toNat
  let den := i.den * Nat.pow 10 exponent.toNat
  let down := num / den
  match i.holds down exponent, i.holds (down + 1) exponent with
  | true, true => some (divNearest num den)
  | true, false => some down
  | false, true => some (down + 1)
  | false, false => none

/-- The fewest digits that read back and the power of ten of the last of them. -/
def shortest (i : Interval) : Nat × Int :=
  let point := pointPosition i
  let grids := (List.range 17).map fun n => point - (n + 1 : Nat)
  match grids.findSome? fun e => (i.onGrid e).map fun d => (d, e) with
  | some found => found
  | none => (i.value / i.den, 0)

/-- Trailing zeros moved from the digits into the exponent. -/
def trimZeros : Nat → Text → Int → Text × Int
  | 0, digits, e => (digits, e)
  | fuel + 1, digits, e =>
    match digits.reverse with
    | '0' :: rest => if rest.isEmpty then (digits, e) else trimZeros fuel rest.reverse (e + 1)
    | _ => (digits, e)

/-- The digits of a positive number as a text, and where its decimal point stands. -/
def significant (x : Binary64) : Text × Int :=
  let found := shortest (interval x)
  let text := Text.decimal found.1
  let trimmed := trimZeros text.length text found.2
  (trimmed.1, trimmed.1.length + trimmed.2)

/-- Digits with a decimal point: positional where the point stands less than four places before the
first digit and at most sixteen after it, with an exponent of two digits or more elsewhere. -/
def layout (digits : Text) (point : Int) : Text :=
  if -4 < point ∧ point ≤ 16 then
    if point ≤ 0 then "0.".toList ++ List.replicate (-point).toNat '0' ++ digits
    else
      let places := point.toNat
      if digits.length ≤ places then
        digits ++ List.replicate (places - digits.length) '0' ++ ".0".toList
      else digits.take places ++ '.' :: digits.drop places
  else
    let mantissa := match digits with
      | [] => []
      | [d] => [d]
      | d :: rest => d :: '.' :: rest
    let exponent := point - 1
    let size := Text.decimal exponent.natAbs
    mantissa ++ 'e' :: (if exponent < 0 then '-' else '+') ::
      (List.replicate (2 - size.length) '0' ++ size)

def finiteText (x : Binary64) : Text :=
  let body := if x.isZero then "0.0".toList else layout (significant x).1 (significant x).2
  if x.isNegative then '-' :: body else body

end Binary64

end SolidityFlattener
