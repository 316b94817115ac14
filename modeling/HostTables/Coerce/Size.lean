/-
  HostTables.Coerce.Size — human readable sizes such as `1.5 kB` in bytes.

  A size is a decimal with a unit that is a power of 1024. The byte count is the product
  rounded half away from zero: whole and fraction are multiplied separately, and of the
  fraction at most `fractionLimit` digits are looked at.
-/
import HostTables.Coerce.Error
import HostTables.Number.Decimal
import HostTables.Number.Signed
import HostTables.Text.Blank

namespace HostTables

inductive SizeUnit where
  | byte
  | kilobyte
  | megabyte
  | gigabyte
  | terabyte
  | petabyte
  deriving DecidableEq, Repr

namespace SizeUnit

/-- Which power of 1024 the unit is. -/
def power : SizeUnit → Nat
  | .byte => 0
  | .kilobyte => 1
  | .megabyte => 2
  | .gigabyte => 3
  | .terabyte => 4
  | .petabyte => 5

/-- How many bytes the unit is. -/
def factor (unit : SizeUnit) : Nat := Nat.pow 1024 unit.power

/-- The unit of a name without blanks around it, in any case; no name means bytes. -/
def ofName? (name : Text) : Option SizeUnit :=
  let word := Text.lower name
  if word = [] ∨ word = "b".toList ∨ word = "bytes".toList then some .byte
  else if word = "kb".toList then some .kilobyte
  else if word = "mb".toList then some .megabyte
  else if word = "gb".toList then some .gigabyte
  else if word = "tb".toList then some .terabyte
  else if word = "pb".toList then some .petabyte
  else none

end SizeUnit

/-- The digits of a size before and after its point. -/
structure SizeLiteral where
  negative : Bool
  whole : Text
  fraction : Text
  deriving DecidableEq, Repr

namespace SizeLiteral

/-- At most one sign, then digits with at most one point and at least one digit. -/
def ofText? (t : Text) : Option SizeLiteral :=
  let (negative, digits) := Decimal.splitSign t
  let (whole, fraction) := (Text.splitOnce? '.' digits).getD (digits, [])
  if (whole = [] ∧ fraction = []) ∨ Decimal.allDigits (whole ++ fraction) = false then none
  else some ⟨negative, whole, fraction⟩

/-- Fraction digits beyond this many are not looked at. -/
def fractionLimit : Nat := 18

def keptFraction (size : SizeLiteral) : Text := size.fraction.take fractionLimit

/-- The denominator of the kept fraction. -/
def fractionScale (size : SizeLiteral) : Nat := Nat.pow 10 size.keptFraction.length

/-- The kept fraction times the unit, plus a half, over `fractionScale`. -/
def fractionNumerator (size : SizeLiteral) (unit : SizeUnit) : Nat :=
  Decimal.value size.keptFraction * unit.factor + size.fractionScale / 2

/-- The bytes of the fraction, rounded half up. -/
def fractionBytes (size : SizeLiteral) (unit : SizeUnit) : Nat :=
  size.fractionNumerator unit / size.fractionScale

/-- The bytes of the size without its sign. -/
def magnitude (size : SizeLiteral) (unit : SizeUnit) : Nat :=
  Decimal.value size.whole * unit.factor + size.fractionBytes unit

def bytes (size : SizeLiteral) (unit : SizeUnit) : Int :=
  if size.negative then -(size.magnitude unit : Int) else size.magnitude unit

end SizeLiteral

/-- The byte count of `value` in `unit`, blanks around both ignored. The unit is judged first. -/
def Coerce.sizeToBytes (value unit : Text) : Except CoerceError (Signed 64) :=
  match SizeUnit.ofName? (Text.trim unit) with
  | none => .error (.unknownUnit (Text.trim unit))
  | some factor =>
    match SizeLiteral.ofText? (Text.trim value) with
    | none => .error (.invalidSize (Text.trim (value ++ ' ' :: unit)))
    | some size =>
      match Signed.ofInt? 64 (size.bytes factor) with
      | none => .error (.outOfRange (Text.trim (Text.trim value ++ ' ' :: unit)))
      | some n => .ok n

end HostTables
