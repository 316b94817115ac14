/-
  HostTables.Text.Basic — text as a list of characters, and how it is cut.

  Kernel files are cut twice: `lines` at line feeds, `tokens` at spaces. Both keep the
  non-empty pieces only (`fields`), so runs of a separator count once and leading and
  trailing ones not at all. Inside a token one separator splits once, at its first
  occurrence (`splitOnce?`) or at its last (`splitLast?`).
-/

namespace HostTables

/-- Input text, held as its characters so that every rule on it is a recursion on a list. -/
abbrev Text := List Char

namespace Text

/-- The text as it is printed. -/
def shown (t : Text) : String := String.ofList t

/-- The non-empty pieces of `t` between occurrences of `separator`, in order. -/
def fields (separator : Char) (t : Text) : List Text :=
  (t.splitOn separator).filter fun piece => !piece.isEmpty

/-- The non-empty lines of a file. -/
def lines (content : Text) : List Text := fields '\n' content

/-- The tokens of a line: its maximal runs without a space. -/
def tokens (line : Text) : List Text := fields ' ' line

/-- The text before and after the first `separator`. -/
def splitOnce? (separator : Char) : Text → Option (Text × Text)
  | [] => none
  | c :: rest =>
    if c = separator then some ([], rest)
    else (splitOnce? separator rest).map fun (before, after) => (c :: before, after)

/-- The text before and after the last `separator`. -/
def splitLast? (separator : Char) : Text → Option (Text × Text)
  | [] => none
  | c :: rest =>
    match splitLast? separator rest with
    | some (before, after) => some (c :: before, after)
    | none => if c = separator then some ([], rest) else none

/-- The pieces in order with `separator` between neighbours. -/
def joined (separator : Text) (pieces : List Text) : Text := separator.intercalate pieces

/-- ASCII letters in lower case, every other character unchanged. -/
def lower (t : Text) : Text := t.map Char.toLower

end Text

end HostTables
