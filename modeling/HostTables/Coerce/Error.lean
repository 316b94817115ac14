/-
  HostTables.Coerce.Error — why a token is not a value of the wanted type.
-/
import HostTables.Text.Basic

namespace HostTables

/-- Why a token cannot be turned into a typed value. -/
inductive CoerceError where
  | invalid (value : Text) (target : String)
  | invalidSize (size : Text)
  | unknownUnit (unit : Text)
  | outOfRange (size : Text)
  deriving DecidableEq, Repr

def CoerceError.message : CoerceError → String
  | .invalid value target => s!"`{Text.shown value}` is not a valid {target}"
  | .invalidSize size => s!"invalid size `{Text.shown size}`"
  | .unknownUnit unit =>
    s!"invalid size unit `{Text.shown unit}`, valid units are bytes, kB, MB, GB, TB and PB"
  | .outOfRange size => s!"size `{Text.shown size}` is out of range"

end HostTables
