/-
  HostTables.Table.Assemble — typed tables from raw rows.

  `assemble` checks every row's width, then its cells from left to right, row by row, and
  reports the first fault. A source that is switched off answers with an empty table; one
  that is on and has no rows is broken.
-/
import HostTables.Format.Lines
import HostTables.Path.Basic

namespace HostTables

/-- Rows whose values match the columns. -/
structure Table where
  columns : Signature
  rows : List (List Value)
  deriving DecidableEq, Repr

/-- The table with these columns and no rows. -/
def Table.empty (columns : Signature) : Table := ⟨columns, []⟩

/-- Where the rows of a table come from. -/
inductive Source where
  | disabled
  | file (path : Path)
  deriving DecidableEq, Repr

/-- Why the content of a file is not a table. -/
inductive TableError where
  | noData (path : Path)
  | malformed (path : Path) (cause : ParseError)
  deriving DecidableEq, Repr

def TableError.message : TableError → String
  | .noData path => s!"expected at least one line of data in `{path.shown}` but found none"
  | .malformed path cause => s!"malformed data in `{path.shown}`: {cause.message}"

namespace Table

/-- The values of a row's cells from `column` on. -/
def coerceCells (row : Nat) : Nat → Row → Signature → Except ParseError (List Value)
  | column, cell :: cells, type :: types =>
    match cell.coerce type with
    | .error cause => .error (.value row column cause)
    | .ok value => return value :: (← coerceCells row (column + 1) cells types)
  | _, _, _ => .ok []

/-- The values of a row that has to fit the signature. -/
def coerceRow (signature : Signature) (row : Nat) (cells : Row) :
    Except ParseError (List Value) :=
  if cells.length = signature.length then coerceCells row 1 cells signature
  else .error (.columnCount row signature.length cells.length)

/-- The table of raw rows. -/
def assemble (rows : List Row) (signature : Signature) : Source → Except TableError Table
  | .disabled => .ok (Table.empty signature)
  | .file path =>
    if rows.isEmpty then .error (.noData path)
    else match Format.eachNumbered (coerceRow signature) 1 rows with
      | .ok values => .ok ⟨signature, values⟩
      | .error cause => .error (.malformed path cause)

/-- The first value of the first row, null if there is none. -/
def firstValue (table : Table) : Value := (table.rows.head?.bind List.head?).getD .null

end Table

end HostTables
