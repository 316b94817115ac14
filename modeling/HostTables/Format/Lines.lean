/-
  HostTables.Format.Lines — reading a file line by line.

  `eachNumbered` reads every item with its number and stops at the first fault; most formats
  are a `rowPerLine` over one rule for a line. `singleLine` is for files that hold one line.
-/
import HostTables.Format.Error
import HostTables.Table.Cell

namespace HostTables.Format

/-- Reads the items in order, the first of them as number `first`, up to the first fault. -/
def eachNumbered {α β ε : Type} (read : Nat → α → Except ε β) (first : Nat) :
    List α → Except ε (List β)
  | [] => .ok []
  | item :: rest => do
    let here ← read first item
    return here :: (← eachNumbered read (first + 1) rest)

/-- A row for every non-empty line of the content. -/
def rowPerLine (row : Nat → Text → Except ParseError Row) (content : Text) :
    Except ParseError (List Row) :=
  eachNumbered row 1 (Text.lines content)

/-- The only non-empty line of the content. -/
def singleLine (content : Text) : Except ParseError Text :=
  match Text.lines content with
  | [line] => .ok line
  | lines => .error (.lineCount (.exactly 1) lines.length)

/-- A row of tokens. -/
def tokenRow (tokens : List Text) : Row := tokens.map Cell.token

end HostTables.Format
