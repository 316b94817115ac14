/-
  HostTables.Format.ProcessFile — the files of one process under procfs.

  `stat` has 52 fields of which the second, the command name, stands between the first
  opening and the last closing parenthesis; `io` has seven counters; `children` lists
  process ids; `cmdline` separates arguments by NUL.
-/
import HostTables.Format.Lines

namespace HostTables.Format.ProcessFile

/-- The columns of `stat`. -/
def statSignature : Signature :=
  [.int4, .text, .text,
   .int4, .int4, .int4, .int4,
   .int4, .int8, .numeric, .numeric,
   .numeric, .numeric, .numeric, .numeric,
   .int8, .int8, .int8, .int8,
   .int8, .int8, .numeric, .numeric,
   .int8, .numeric, .numeric, .numeric,
   .numeric, .numeric, .numeric, .numeric,
   .numeric, .numeric, .numeric, .numeric,
   .numeric, .numeric, .int4, .int4,
   .int8, .int8, .numeric, .numeric,
   .int8, .numeric, .numeric, .numeric,
   .numeric, .numeric, .numeric, .numeric,
   .int4]

def statColumns : Nat := 52

/-- The row of a `stat` file: process id, command name, and the tokens behind it. -/
def statRow (content : Text) : Except ParseError Row := do
  let line ← singleLine content
  let some (pid, afterOpen) := Text.splitOnce? '(' line
    | .error (.missingDelimiter 1 '(')
  let some (command, afterClose) := Text.splitLast? ')' afterOpen
    | .error (.missingDelimiter 1 ')')
  let tokens := Text.tokens afterClose
  if tokens.length + 2 = statColumns then
    return tokenRow (Text.trim pid :: command :: tokens)
  else
    .error (.tokenCount 1 (.exactly statColumns) (tokens.length + 2))

/-- The columns of a process and its `io` counters. -/
def ioSignature : Signature :=
  [.int4, .numeric, .numeric, .numeric, .numeric, .numeric, .numeric, .numeric]

def ioCounters : Nat := 7

/-- The counter of a line `name: value`. -/
def ioCounter (line : Nat) (t : Text) : Except ParseError Text :=
  match Text.tokens t with
  | [_, value] => .ok value
  | tokens => .error (.tokenCount line (.exactly 2) tokens.length)

/-- The process id and its counters. -/
def ioRow (pid content : Text) : Except ParseError Row :=
  let lines := Text.lines content
  if lines.length = ioCounters then do
    return tokenRow (pid :: (← eachNumbered ioCounter 1 lines))
  else
    .error (.lineCount (.exactly ioCounters) lines.length)

/-- The process ids of a `children` file. -/
def children (content : Text) : List Text := (Text.lines content).flatMap Text.tokens

/-- The columns of a process, its command line and its owner. -/
def commandLineSignature : Signature := [.int4, .text, .int4, .text]

/-- The arguments of a command line with a space between neighbours. -/
def commandLine (raw : Text) : Text := Text.joined [' '] (Text.fields '\x00' raw)

end HostTables.Format.ProcessFile
