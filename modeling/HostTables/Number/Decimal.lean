/-
  HostTables.Number.Decimal — whole numbers in decimal digits.

  A natural number is read from one or more ASCII digits, with any number of leading zeros;
  an integer may carry one sign in front. `ofInt` writes the shortest numeral, without a plus.
-/
import HostTables.Text.Basic

namespace HostTables.Decimal

/-- Digits and nothing else, possibly none. -/
def allDigits (t : Text) : Bool := t.all Char.isDigit

/-- The number that a run of digits denotes. -/
def value (digits : Text) : Nat := Nat.ofDigitChars 10 digits 0

/-- One or more digits. -/
def natural? (t : Text) : Option Nat :=
  if t ≠ [] ∧ allDigits t = true then some (value t) else none

/-- Whether a numeral has a minus in front, and the numeral without its sign. -/
def splitSign : Text → Bool × Text
  | '-' :: rest => (true, rest)
  | '+' :: rest => (false, rest)
  | t => (false, t)

/-- One or more digits behind at most one plus sign. -/
def unsigned? : Text → Option Nat
  | '+' :: digits => natural? digits
  | t => natural? t

/-- One or more digits behind at most one sign. -/
def integer? (t : Text) : Option Int :=
  (natural? (splitSign t).2).map fun n => if (splitSign t).1 then -(n : Int) else n

/-- The numeral of a natural number. -/
def ofNat (n : Nat) : Text := Nat.toDigits 10 n

/-- The numeral of an integer, with a sign only if it is negative. -/
def ofInt : Int → Text
  | .ofNat n => ofNat n
  | .negSucc n => '-' :: ofNat (n + 1)

end HostTables.Decimal
