/-
  HostTables.Format — the formats of virtual files and the columns they yield.

  A format turns the content of a file into raw rows and declares the signature those rows
  fit. Typing the cells is a later step.
-/
import HostTables.Format.Kernel
import HostTables.Format.Keyed

namespace HostTables

/-- The format of a virtual file. -/
inductive Format where
  /-- One line that is one value. -/
  | scalar (type : ColumnType)
  /-- A value on every line, or, on a single line, in every token. -/
  | values (type : ColumnType)
  /-- One line of tokens that is one array. -/
  | array (type : ColumnType)
  | flatKeyed
  | keySubkeyValue
  | nestedKeyed
  | quotedPairs
  | kernel (file : KernelFile)
  deriving DecidableEq, Repr

namespace Format

/-- The columns of the rows that the format yields. -/
def signature : Format → Signature
  | .scalar type | .values type | .array type => [type]
  | .flatKeyed => [.text, .int8]
  | .keySubkeyValue => [.text, .text, .int8]
  | .nestedKeyed => [.text, .text, .float8]
  | .quotedPairs => [.text, .text]
  | .kernel file => file.signature

/-- The values of a file: the tokens of a single line, otherwise the lines. -/
def valuesOf (content : Text) : List Text :=
  match Text.lines content with
  | [line] => Text.tokens line
  | lines => lines

/-- The raw rows of a file's content. -/
def rows : Format → Text → Except ParseError (List Row)
  | .scalar _, content => do return [tokenRow [← singleLine content]]
  | .values _, content => .ok ((valuesOf content).map fun value => tokenRow [value])
  | .array _, content => do return [[Cell.list (Text.tokens (← singleLine content))]]
  | .flatKeyed, content => rowPerLine flatRow content
  | .keySubkeyValue, content => rowPerLine subkeyRow content
  | .nestedKeyed, content => nestedRows content
  | .quotedPairs, content => rowPerLine quotedRow content
  | .kernel file, content => file.rows content

end Format

end HostTables
