/-
  HostTables.Text.Utf8 — bytes read as UTF-8.

  `readings` scans bytes from left to right and yields a character for every well-formed
  sequence and `none` for every maximal ill-formed one: a lead byte with the continuation
  bytes that still fit it, or a single byte that fits nothing. `decodeLossy` puts U+FFFD for
  each `none`; `decode?` accepts well-formed bytes only and otherwise says how many of the
  leading bytes are well-formed.
-/
import HostTables.Text.Basic

namespace HostTables.Utf8

/-- The UTF-8 bytes of a text. -/
def encode (t : Text) : List UInt8 := t.flatMap String.utf8EncodeChar

/-- What has been read of a character: nothing, or a lead byte and what must follow it. The
next byte has to lie between `low` and `high`, and `more` continuation bytes come after it. -/
inductive State where
  | start
  | inside (more value low high : Nat)
  deriving DecidableEq, Repr

/-- The first byte of a character, `none` when no character starts with it. The second byte is
restricted where it would give an overlong form, a surrogate or a value above U+10FFFF. -/
def State.ofLead? (b : Nat) : Option State :=
  if 0xC2 ≤ b ∧ b ≤ 0xDF then some (.inside 0 (b - 0xC0) 0x80 0xBF)
  else if b = 0xE0 then some (.inside 1 0x0 0xA0 0xBF)
  else if b = 0xED then some (.inside 1 0xD 0x80 0x9F)
  else if 0xE1 ≤ b ∧ b ≤ 0xEF then some (.inside 1 (b - 0xE0) 0x80 0xBF)
  else if b = 0xF0 then some (.inside 2 0x0 0x90 0xBF)
  else if 0xF1 ≤ b ∧ b ≤ 0xF3 then some (.inside 2 (b - 0xF0) 0x80 0xBF)
  else if b = 0xF4 then some (.inside 2 0x4 0x80 0x8F)
  else none

/-- Reads a byte between two characters. -/
def State.begin (b : Nat) : List (Option Char) × State :=
  if b < 0x80 then ([some (Char.ofNat b)], .start)
  else match State.ofLead? b with
    | some s => ([], s)
    | none => ([none], .start)

/-- Reads one byte. A byte that does not fit closes the sequence before it as ill-formed and
is then read as the first byte of what follows. -/
def State.step : State → Nat → List (Option Char) × State
  | .start, b => State.begin b
  | .inside more value low high, b =>
    if low ≤ b ∧ b ≤ high then
      match more with
      | 0 => ([some (Char.ofNat (value * 64 + (b - 0x80)))], .start)
      | more + 1 => ([], .inside more (value * 64 + (b - 0x80)) 0x80 0xBF)
    else
      let (read, s) := State.begin b
      (none :: read, s)

/-- A character for every well-formed sequence, `none` for every maximal ill-formed one. -/
def readingsFrom : State → List UInt8 → List (Option Char)
  | .start, [] => []
  | .inside .., [] => [none]
  | s, b :: rest =>
    let (read, s') := s.step b.toNat
    read ++ readingsFrom s' rest

def readings (bytes : List UInt8) : List (Option Char) := readingsFrom .start bytes

/-- U+FFFD, which stands for an ill-formed sequence. -/
def replacement : Char := '\uFFFD'

/-- The text of the bytes, with U+FFFD for each maximal ill-formed sequence. -/
def decodeLossy (bytes : List UInt8) : Text :=
  (readings bytes).map fun reading => reading.getD replacement

/-- The text of well-formed bytes, otherwise the number of well-formed bytes at the front. -/
def decode? (bytes : List UInt8) : Except Nat Text :=
  let read := readings bytes
  if read.all Option.isSome then .ok (read.filterMap id)
  else .error (encode ((read.takeWhile Option.isSome).filterMap id)).length

end HostTables.Utf8
