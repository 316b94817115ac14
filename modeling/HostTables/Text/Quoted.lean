/-
  HostTables.Text.Quoted — the quoted values of Downward API files.

  A value may open with a quote and may close with one; what lies between is literal text
  and escapes. Named escapes stand for one character, `\xHH` for one byte, `\uHHHH` and
  `\UHHHHHHHH` for a code point. Any other escape keeps its backslash, and a backslash at the
  very end is dropped. The decoded bytes have to be UTF-8.
-/
import HostTables.Text.Utf8

namespace HostTables

/-- Why a quoted value cannot be decoded. -/
inductive EscapeError where
  | shortHex (escape : Char) (needed : Nat)
  | invalidCodePoint (value : Nat)
  | invalidUtf8 (offset : Nat)
  deriving DecidableEq, Repr

def EscapeError.message : EscapeError → String
  | .shortHex escape needed => s!"malformed \\{escape} literal, expected {needed} hex digits"
  | .invalidCodePoint value =>
    s!"invalid unicode code point 0x{String.ofList (Nat.toDigits 16 value)}"
  | .invalidUtf8 offset => s!"escaped bytes are not valid UTF-8 after {offset} bytes"

namespace Quoted

/-- The escapes that are followed by hexadecimal digits. -/
inductive HexEscape where
  | byte
  | short
  | long
  deriving DecidableEq, Repr

def HexEscape.letter : HexEscape → Char
  | .byte => 'x'
  | .short => 'u'
  | .long => 'U'

/-- How many digits the escape takes. -/
def HexEscape.digits : HexEscape → Nat
  | .byte => 2
  | .short => 4
  | .long => 8

def HexEscape.ofLetter? : Char → Option HexEscape
  | 'x' => some .byte
  | 'u' => some .short
  | 'U' => some .long
  | _ => none

/-- The bytes an escape with this value stands for. -/
def HexEscape.bytes (escape : HexEscape) (value : Nat) : Except EscapeError (List UInt8) :=
  match escape with
  | .byte => .ok [UInt8.ofNat value]
  | .short | .long =>
    if value.isValidChar then .ok (String.utf8EncodeChar (Char.ofNat value))
    else .error (.invalidCodePoint value)

/-- The value of a hexadecimal digit of either case. -/
def hexDigit? (c : Char) : Option Nat :=
  if '0' ≤ c ∧ c ≤ '9' then some (c.toNat - '0'.toNat)
  else if 'a' ≤ c ∧ c ≤ 'f' then some (c.toNat - 'a'.toNat + 10)
  else if 'A' ≤ c ∧ c ≤ 'F' then some (c.toNat - 'A'.toNat + 10)
  else none

/-- The character that a named escape stands for. -/
def named? : Char → Option Char
  | '\\' => some '\\'
  | 'a' => some '\x07'
  | 'b' => some '\x08'
  | 'f' => some '\x0c'
  | 'n' => some '\n'
  | 'r' => some '\r'
  | 't' => some '\t'
  | 'v' => some '\x0b'
  | '"' => some '"'
  | _ => none

/-- The bytes of an escape without digits: the named character, or backslash and character. -/
def plainEscape (c : Char) : List UInt8 :=
  match named? c with
  | some named => Utf8.encode [named]
  | none => Utf8.encode ['\\', c]

/-- Where the decoder stands: in literal text, behind a backslash, or inside a hexadecimal
escape of which `missing` digits are still to come after the next one. -/
inductive Place where
  | literal
  | escape
  | hex (kind : HexEscape) (missing value : Nat)
  deriving DecidableEq, Repr

/-- The bytes that the rest of a quoted value stands for. -/
def bytesFrom : Place → Text → Except EscapeError (List UInt8)
  | .literal, [] => .ok []
  | .literal, c :: rest =>
    if c = '"' ∧ rest = [] then .ok []
    else if c = '\\' then bytesFrom .escape rest
    else return String.utf8EncodeChar c ++ (← bytesFrom .literal rest)
  | .escape, [] => .ok []
  | .escape, c :: rest =>
    match HexEscape.ofLetter? c with
    | some kind => bytesFrom (.hex kind (kind.digits - 1) 0) rest
    | none => return plainEscape c ++ (← bytesFrom .literal rest)
  | .hex kind _ _, [] => .error (.shortHex kind.letter kind.digits)
  | .hex kind missing value, c :: rest =>
    match hexDigit? c with
    | none => .error (.shortHex kind.letter kind.digits)
    | some digit =>
      match missing with
      | 0 => do
        let bytes ← kind.bytes (value * 16 + digit)
        return bytes ++ (← bytesFrom .literal rest)
      | missing + 1 => bytesFrom (.hex kind missing (value * 16 + digit)) rest

/-- The text without one leading quote. -/
def dropOpening : Text → Text
  | '"' :: rest => rest
  | t => t

/-- The bytes a quoted value stands for. -/
def bytes (input : Text) : Except EscapeError (List UInt8) := bytesFrom .literal (dropOpening input)

/-- The text a quoted value stands for. -/
def decode (input : Text) : Except EscapeError Text := do
  match Utf8.decode? (← bytes input) with
  | .ok text => .ok text
  | .error offset => .error (.invalidUtf8 offset)

end Quoted

end HostTables
