/-
  HostTables.Table.Column — the types of columns and the spellings of their names.
-/
import HostTables.Text.Blank

namespace HostTables

/-- The declared type of an output column. -/
inductive ColumnType where
  | text
  | int4
  | int8
  | float8
  | numeric
  | textArray
  | int8Array
  deriving DecidableEq, Repr

/-- The column types of a table, from left to right. -/
abbrev Signature := List ColumnType

namespace ColumnType

/-- The name in queries and error texts. -/
def name : ColumnType → String
  | .text => "text"
  | .int4 => "int4"
  | .int8 => "int8"
  | .float8 => "float8"
  | .numeric => "numeric"
  | .textArray => "text[]"
  | .int8Array => "int8[]"

/-- The name in printed tables. -/
def printedName : ColumnType → String
  | .textArray => "text_array"
  | .int8Array => "int8_array"
  | type => type.name

/-- The name in reports of a schema mismatch. -/
def constructorName : ColumnType → String
  | .text => "Text"
  | .int4 => "Int4"
  | .int8 => "Int8"
  | .float8 => "Float8"
  | .numeric => "Numeric"
  | .textArray => "TextArray"
  | .int8Array => "Int8Array"

/-- Every accepted spelling, in lower case, with the type it names. -/
def spellings : List (String × ColumnType) :=
  [("text", .text), ("int4", .int4), ("integer", .int4), ("int", .int4), ("int8", .int8),
   ("bigint", .int8), ("float8", .float8), ("double precision", .float8), ("double", .float8),
   ("numeric", .numeric), ("text[]", .textArray), ("int8[]", .int8Array),
   ("bigint[]", .int8Array)]

/-- The type a text names, in any case and with blanks around it; otherwise the text as it was
looked up. -/
def ofText? (t : Text) : Except Text ColumnType :=
  let word := Text.lower (Text.trim t)
  match spellings.find? fun (spelling, _) => spelling.toList == word with
  | some (_, type) => .ok type
  | none => .error word

/-- The message for a text that names no column type, as it was looked up. -/
def unknownMessage (word : Text) : String := s!"unknown column type `{Text.shown word}`"

end ColumnType

/-- A signature as reports show it. -/
def Signature.message (signature : Signature) : String :=
  "[" ++ ", ".intercalate (signature.map ColumnType.constructorName) ++ "]"

end HostTables
