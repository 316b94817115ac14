/-
  HostTables.Json.Table — the JSON form of values and tables.
-/
import HostTables.Json.Basic
import HostTables.Table.Assemble

namespace HostTables

/-- A value stands for itself; a double that is not finite is printed as `null`. -/
def Value.json : Value → Json
  | .null => .null
  | .text value => .string value
  | .int4 value => .integer value.val
  | .int8 value => .integer value.val
  | .float8 value => .real value
  | .numeric value => .integer value.val
  | .textArray items => .array (items.map Json.string)
  | .int8Array items => .array (items.map fun item => .integer item.val)

/-- The printed names of the columns and the rows as arrays. -/
def Table.json (table : Table) : Json :=
  .object
    [("columns".toList, .array (table.columns.map fun type => .string type.printedName.toList)),
     ("rows".toList, .array (table.rows.map fun row => .array (row.map Value.json)))]

end HostTables
