/-
  HostTables.Number.Double — binary64 numbers and their decimal literals.

  A `Double` is the 64-bit word. A finite one denotes `significand · 2 ^ exponent`. A
  literal denotes an exact decimal `m · 10 ^ e`, which `ofDecimal` rounds to the nearest
  double, a tie to the even significand, in whole-number arithmetic throughout.
-/
import HostTables.Number.Decimal

namespace HostTables

/-- A binary64 number, given by its word. -/
structure Double where
  word : UInt64
  deriving DecidableEq, Repr

namespace Double

/-- The sign bit of a word. -/
def signBit : Nat := 0x8000000000000000

/-- The lowest bit of the exponent field, as many as there are fractions. -/
def exponentUnit : Nat := 0x10000000000000

/-- The word of positive infinity: the first one above every finite magnitude. -/
def infinityWord : Nat := 2047 * exponentUnit

/-- The double with this sign and magnitude word. -/
def ofMagnitude (negative : Bool) (magnitude : Nat) : Double :=
  ⟨UInt64.ofNat (if negative then signBit + magnitude else magnitude)⟩

def infinity (negative : Bool) : Double := ofMagnitude negative infinityWord

/-- The quiet NaN. -/
def nan : Double := ⟨0x7FF8000000000000⟩

/-- The largest finite double. -/
def maxFinite : Double := ofMagnitude false (infinityWord - 1)

def isNegative (x : Double) : Bool := decide (signBit ≤ x.word.toNat)

def exponentField (x : Double) : Nat := x.word.toNat / exponentUnit % 2048

def fractionField (x : Double) : Nat := x.word.toNat % exponentUnit

def isFinite (x : Double) : Bool := x.exponentField != 2047

def isNaN (x : Double) : Bool := x.exponentField == 2047 && x.fractionField != 0

/-- The whole number that a finite double multiplies its power of two with. -/
def significand (x : Double) : Nat :=
  if x.exponentField = 0 then x.fractionField else exponentUnit + x.fractionField

/-- The power of two of a finite double. -/
def exponent (x : Double) : Int :=
  if x.exponentField = 0 then -1074 else (x.exponentField : Int) - 1075

/-! ## Rounding a decimal -/

/-- The whole number nearest to `numerator / denominator`, a tie to the even one. -/
def roundHalfEven (numerator denominator : Nat) : Nat :=
  let quotient := numerator / denominator
  let twice := 2 * (numerator % denominator)
  if twice < denominator ∨ (twice = denominator ∧ quotient % 2 = 0) then quotient
  else quotient + 1

/-- The power of two at which `numerator / denominator` is counted in whole units: the one
that leaves 53 binary digits, but never below that of the smallest double. -/
def unitExponent (numerator denominator : Nat) : Int :=
  let estimate := (numerator.log2 : Int) - denominator.log2 - 53
  let low := Nat.pow 2 (53 + estimate.toNat) * denominator
  max (-1074) (if low ≤ numerator * Nat.pow 2 (-estimate).toNat then estimate + 1 else estimate)

/-- The magnitude word nearest to `numerator / denominator`. The words of consecutive
magnitudes are consecutive, so a significand that is rounded up to the next power of two
carries into the exponent by itself. -/
def nearestWord (numerator denominator : Nat) : Nat :=
  let unit := unitExponent numerator denominator
  let count :=
    roundHalfEven (numerator * Nat.pow 2 (-unit).toNat) (denominator * Nat.pow 2 unit.toNat)
  min infinityWord ((unit + 1074).toNat * exponentUnit + count)

/-- The double nearest to `digits · 10 ^ exponent`. Magnitudes far outside the range of
doubles are settled by the number of digits alone. -/
def ofDecimal (negative : Bool) (digits : Nat) (exponent : Int) : Double :=
  let leading := (Decimal.ofNat digits).length + exponent
  ofMagnitude negative <|
    if digits = 0 ∨ leading < -330 then 0
    else if 310 < leading then infinityWord
    else nearestWord (digits * Nat.pow 10 exponent.toNat) (Nat.pow 10 (-exponent).toNat)

/-! ## Literals -/

/-- From here on an exponent is large enough, whatever further digits it has. -/
def exponentCap : Nat := 65536

/-- The number that the digits of an exponent denote. Digits behind one that reaches the cap
are not looked at. -/
def exponentValue (digits : Text) : Nat :=
  digits.foldl (fun e digit => if e < exponentCap then 10 * e + (digit.toNat - '0'.toNat) else e) 0

/-- One or more digits behind at most one sign. -/
def exponent? (t : Text) : Option Int :=
  let (negative, digits) := Decimal.splitSign t
  if digits = [] ∨ Decimal.allDigits digits = false then none
  else some (if negative then -(exponentValue digits : Int) else exponentValue digits)

/-- What follows the digits of a literal: nothing, or a power of ten. -/
def exponentPart? : Text → Option Int
  | [] => some 0
  | 'e' :: rest | 'E' :: rest => exponent? rest
  | _ => none

/-- Digits with at most one point among them and at least one digit, then the exponent. -/
def unsignedLiteral? (negative : Bool) (t : Text) : Option Double :=
  let whole := t.takeWhile Char.isDigit
  let afterWhole := t.dropWhile Char.isDigit
  let (fraction, rest) := match afterWhole with
    | '.' :: r => (r.takeWhile Char.isDigit, r.dropWhile Char.isDigit)
    | r => ([], r)
  if whole ++ fraction = [] then none
  else (exponentPart? rest).map fun e =>
    ofDecimal negative (Decimal.value (whole ++ fraction)) (e - fraction.length)

/-- A literal: an optional sign, then a decimal or, in any case, `inf`, `infinity` or `nan`. -/
def ofText? (t : Text) : Option Double :=
  let (negative, rest) := Decimal.splitSign t
  let word := Text.lower rest
  if word = "inf".toList ∨ word = "infinity".toList then some (infinity negative)
  else if word = "nan".toList then some nan
  else unsignedLiteral? negative rest

end Double

end HostTables
