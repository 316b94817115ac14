/-
  HostTables.Format.Keyed — the keyed formats of cgroup and Downward API files.

  `key value` (flat), `key subkey value` with two-token lines as aggregates, `group
  subkey=value ...` with as many pairs on every line (nested), and `key="quoted value"`.
-/
import HostTables.Format.Lines

namespace HostTables.Format

/-! ## Flat keyed and key, subkey, value -/

/-- A line `key value`. -/
def flatRow (line : Nat) (t : Text) : Except ParseError Row :=
  match Text.tokens t with
  | [key, value] => .ok (tokenRow [key, value])
  | tokens => .error (.tokenCount line (.exactly 2) tokens.length)

/-- The key of a line that gives a subkey and a value only. -/
def aggregateKey : Text := "all".toList

/-- A line `key subkey value`, or `subkey value` for all keys together. -/
def subkeyRow (line : Nat) (t : Text) : Except ParseError Row :=
  match Text.tokens t with
  | [subkey, value] => .ok (tokenRow [aggregateKey, subkey, value])
  | [key, subkey, value] => .ok (tokenRow [key, subkey, value])
  | tokens => .error (.tokenCount line (.oneOf [2, 3]) tokens.length)

/-! ## Nested keyed -/

/-- A line `group subkey=value ...`. -/
structure NestedLine where
  group : Text
  pairs : List (Text × Text)
  deriving DecidableEq, Repr

namespace NestedLine

/-- The fields of the line, the group among them. -/
def fieldCount (line : NestedLine) : Nat := line.pairs.length + 1

/-- A row for every pair. -/
def rows (line : NestedLine) : List Row :=
  line.pairs.map fun (subkey, value) => tokenRow [line.group, subkey, value]

/-- A token with text on both sides of its first `=`. -/
def pair (line : Nat) (token : Text) : Except ParseError (Text × Text) :=
  match Text.splitOnce? '=' token with
  | some (subkey, value) =>
    if subkey = [] ∨ value = [] then .error (.malformedPair line token) else .ok (subkey, value)
  | none => .error (.malformedPair line token)

def pairsOf (line : Nat) : List Text → Except ParseError (List (Text × Text))
  | [] => .ok []
  | token :: rest => do
    let here ← pair line token
    return here :: (← pairsOf line rest)

def ofText (line : Nat) (t : Text) : Except ParseError NestedLine :=
  match Text.tokens t with
  | [] => .error (.tokenCount line (.atLeast 1) 0)
  | group :: tokens => return { group, pairs := ← pairsOf line tokens }

/-- A line that has to have `expected` fields. -/
def ofTextWith (expected : Nat) (line : Nat) (t : Text) : Except ParseError NestedLine := do
  let nested ← ofText line t
  if nested.fieldCount = expected then .ok nested
  else .error (.unevenGroup line expected nested.fieldCount)

end NestedLine

/-- A row for every pair of every line; the first line sets the number of fields. -/
def nestedRows (content : Text) : Except ParseError (List Row) :=
  match Text.lines content with
  | [] => .ok []
  | first :: rest => do
    let expected := (← NestedLine.ofText 1 first).fieldCount
    let lines ← eachNumbered (NestedLine.ofTextWith expected) 1 (first :: rest)
    return lines.flatMap NestedLine.rows

/-! ## Quoted pairs -/

/-- A line `key="quoted value"`, cut at its first `=`. -/
def quotedPair (line : Nat) (t : Text) : Except ParseError (Text × Text) :=
  match Text.splitOnce? '=' t with
  | none => .error (.missingDelimiter line '=')
  | some (key, quoted) =>
    if key = [] then .error (.tokenCount line (.exactly 2) 1)
    else match Quoted.decode quoted with
      | .ok value => .ok (key, value)
      | .error cause => .error (.escape line cause)

def quotedRow (line : Nat) (t : Text) : Except ParseError Row := do
  let (key, value) ← quotedPair line t
  return tokenRow [key, value]

end HostTables.Format
