/-
  HostTables.Table.Cell — raw cells, typed values and the step between them.

  Formats yield raw cells: a token, a list of tokens, or nothing where an older kernel does
  not write the column. `Cell.coerce` turns a cell into a value of its column's type.
-/
import HostTables.Coerce.Token
import HostTables.Table.Column

namespace HostTables

/-- A field of a parsed row before its type is applied. -/
inductive Cell where
  | null
  | token (value : Text)
  | list (items : List Text)
  deriving DecidableEq, Repr

/-- A parsed row. -/
abbrev Row := List Cell

/-- A typed value of a result. -/
inductive Value where
  | null
  | text (value : Text)
  | int4 (value : Signed 32)
  | int8 (value : Signed 64)
  | float8 (value : Double)
  | numeric (value : Signed 128)
  | textArray (items : List Text)
  | int8Array (items : List (Signed 64))
  deriving DecidableEq, Repr

/-- The value of a cell in a column: null stays null, a token is read as the scalar type, a
list item by item. A token in an array column and a list in a scalar column are refused. -/
def Cell.coerce : Cell → ColumnType → Except CoerceError Value
  | .null, _ => .ok .null
  | .token value, .text => .ok (.text value)
  | .token value, .int4 => Value.int4 <$> Coerce.toInt32 value
  | .token value, .int8 => Value.int8 <$> Coerce.toInt64 value
  | .token value, .float8 => Value.float8 <$> Coerce.toDouble value
  | .token value, .numeric => Value.numeric <$> Coerce.toNumeric value
  | .list items, .textArray => .ok (.textArray items)
  | .list items, .int8Array => Value.int8Array <$> items.mapM Coerce.toInt64
  | .token value, type => .error (.invalid value type.name)
  | .list items, type => .error (.invalid (Text.joined [' '] items) type.name)

end HostTables
