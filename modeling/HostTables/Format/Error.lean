/-
  HostTables.Format.Error — why the content of a file does not have its format.

  Lines and rows are counted from 1. The path of the file is added by whoever read it.
-/
import HostTables.Coerce.Error
import HostTables.Format.MountLine
import HostTables.Text.Quoted

namespace HostTables

/-- How many tokens or lines a format takes. -/
inductive Arity where
  | exactly (count : Nat)
  | atLeast (count : Nat)
  | oneOf (counts : List Nat)
  deriving DecidableEq, Repr

namespace Arity

def accepts : Arity → Nat → Bool
  | .exactly count, n => n == count
  | .atLeast count, n => decide (count ≤ n)
  | .oneOf counts, n => counts.contains n

def message : Arity → String
  | .exactly count => s!"{count}"
  | .atLeast count => s!"at least {count}"
  | .oneOf counts => "one of " ++ ", ".intercalate (counts.map toString)

end Arity

/-- Why the content of a file cannot be read as typed rows. -/
inductive ParseError where
  | tokenCount (line : Nat) (expected : Arity) (actual : Nat)
  | lineCount (expected : Arity) (actual : Nat)
  | unevenGroup (line expected actual : Nat)
  | malformedPair (line : Nat) (token : Text)
  | missingDelimiter (line : Nat) (delimiter : Char)
  | mountLine (line : Nat) (cause : MountLineError)
  | escape (line : Nat) (cause : EscapeError)
  | columnCount (row expected actual : Nat)
  | value (row column : Nat) (cause : CoerceError)
  deriving DecidableEq, Repr

def ParseError.message : ParseError → String
  | .tokenCount line expected actual =>
    s!"expected {expected.message} tokens, got {actual} on line {line}"
  | .lineCount expected actual => s!"expected {expected.message} lines, got {actual}"
  | .unevenGroup line expected actual =>
    s!"not a nested keyed file: line {line} has {actual} fields, first line has {expected}"
  | .malformedPair line token =>
    s!"malformed subkey=value pair `{Text.shown token}` on line {line}"
  | .missingDelimiter line delimiter => s!"missing `{delimiter}` on line {line}"
  | .mountLine line cause => s!"malformed mountinfo line {line}: {cause.message}"
  | .escape line cause => s!"malformed quoted value on line {line}: {cause.message}"
  | .columnCount row expected actual =>
    s!"row {row} has {actual} columns, expected {expected}"
  | .value row column cause => s!"row {row}, column {column}: {cause.message}"

end HostTables
