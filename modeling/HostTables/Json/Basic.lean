/-
  HostTables.Json.Basic — JSON values and their text.

  One printer serves both layouts: compact, and indented by two spaces with every item on a
  line of its own. Strings escape quotes, backslashes and control characters; all other
  characters are written as they are. Numbers that JSON cannot express are `null`.
-/
import HostTables.Number.Shortest

namespace HostTables

/-- A JSON value; the members of an object are in printing order. -/
inductive Json where
  | null
  | integer (value : Int)
  | real (value : Double)
  | string (value : Text)
  | array (items : List Json)
  | object (members : List (Text × Json))

namespace Json

/-- The hexadecimal digits of a control character. -/
def hexByte (n : Nat) : Text := [Nat.digitChar (n / 16 % 16), Nat.digitChar (n % 16)]

/-- A character inside a string. -/
def escapeChar (c : Char) : Text :=
  if c = '"' then ['\\', '"']
  else if c = '\\' then ['\\', '\\']
  else if c = '\x08' then ['\\', 'b']
  else if c = '\x0c' then ['\\', 'f']
  else if c = '\n' then ['\\', 'n']
  else if c = '\r' then ['\\', 'r']
  else if c = '\t' then ['\\', 't']
  else if c.toNat < 0x20 then ['\\', 'u', '0', '0'] ++ hexByte c.toNat
  else [c]

/-- The text of a string. -/
def quote (t : Text) : Text := '"' :: t.flatMap escapeChar ++ ['"']

/-- How a value is laid out: on one line, or indented at a depth. -/
inductive Layout where
  | compact
  | indented (depth : Nat)
  deriving DecidableEq, Repr

namespace Layout

def deeper : Layout → Layout
  | .compact => .compact
  | .indented depth => .indented (depth + 1)

/-- What stands in front of an item and of a closing bracket. -/
def lineStart : Layout → Text
  | .compact => []
  | .indented depth => '\n' :: List.replicate (2 * depth) ' '

/-- What stands between a member's name and its value. -/
def colon : Layout → Text
  | .compact => [':']
  | .indented _ => [':', ' ']

end Layout

mutual

/-- The text of a value. -/
def print (layout : Layout) : Json → Text
  | .null => "null".toList
  | .integer value => Decimal.ofInt value
  | .real value => if value.isFinite then value.text else "null".toList
  | .string value => quote value
  | .array items =>
    if items.isEmpty then ['[', ']']
    else '[' :: printItems layout.deeper items ++ layout.lineStart ++ [']']
  | .object members =>
    if members.isEmpty then ['\x7b', '\x7d']
    else '\x7b' :: printMembers layout.deeper members ++ layout.lineStart ++ ['\x7d']

/-- The items of an array with commas between them. -/
def printItems (layout : Layout) : List Json → Text
  | [] => []
  | item :: rest =>
    layout.lineStart ++ print layout item ++
      (if rest.isEmpty then [] else ',' :: printItems layout rest)

/-- The members of an object with commas between them. -/
def printMembers (layout : Layout) : List (Text × Json) → Text
  | [] => []
  | (name, value) :: rest =>
    layout.lineStart ++ quote name ++ layout.colon ++ print layout value ++
      (if rest.isEmpty then [] else ',' :: printMembers layout rest)

end

end Json

end HostTables
