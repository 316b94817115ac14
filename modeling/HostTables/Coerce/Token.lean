/-
  HostTables.Coerce.Token — tokens as numbers.

  Integers are decimal numerals with at most one sign, in the range of their width; doubles
  are decimal literals. Where the kernel writes `max` for a limit that is not set, the
  64-bit integer and the double are the largest there are.
-/
import HostTables.Coerce.Error
import HostTables.Number.Double
import HostTables.Number.Signed

namespace HostTables.Coerce

/-- The word for a limit that is not set, in any case. -/
def isUnlimited (token : Text) : Bool := Text.lower token == "max".toList

/-- A numeral in the range of `width` bits. -/
def signed (width : Nat) (target : String) (token : Text) : Except CoerceError (Signed width) :=
  match (Decimal.integer? token).bind (Signed.ofInt? width) with
  | some n => .ok n
  | none => .error (.invalid token target)

def toInt32 (token : Text) : Except CoerceError (Signed 32) := signed 32 "integer" token

def toInt64 (token : Text) : Except CoerceError (Signed 64) :=
  if isUnlimited token then .ok (Signed.maxValue 64) else signed 64 "bigint" token

/-- A counter that may exceed 64 bits. -/
def toNumeric (token : Text) : Except CoerceError (Signed 128) := signed 128 "numeric" token

def toDouble (token : Text) : Except CoerceError Double :=
  if isUnlimited token then .ok Double.maxFinite
  else match Double.ofText? token with
    | some x => .ok x
    | none => .error (.invalid token "double precision")

end HostTables.Coerce
