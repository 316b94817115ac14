/-
  HostTables.Format.Kernel — the fixed-column files under procfs.

  Each file has its own grammar and a signature that its rows fit. Columns that an older
  kernel does not write are null.
-/
import HostTables.Coerce.Size
import HostTables.Format.ProcessFile

namespace HostTables.Format

/-! ## diskstats -/

namespace Diskstats

/-- Device numbers and name, reads, writes, requests in flight and their times, discards,
flushes. -/
def signature : Signature :=
  [.int8, .int8, .text,
   .numeric, .numeric, .numeric, .int8,
   .numeric, .numeric, .numeric, .int8,
   .int8, .int8, .int8,
   .numeric, .numeric, .numeric, .int8,
   .numeric, .int8]

def columns : Nat := 20

/-- The widths that kernels write: without discards and flushes, without flushes, complete. -/
def widths : Arity := .oneOf [14, 18, 20]

/-- The tokens of a line, padded with nulls to all columns. -/
def row (line : Nat) (t : Text) : Except ParseError Row :=
  let tokens := Text.tokens t
  if widths.accepts tokens.length then
    .ok (tokenRow tokens ++ List.replicate (columns - tokens.length) Cell.null)
  else
    .error (.tokenCount line widths tokens.length)

end Diskstats

/-! ## mountinfo -/

namespace Mountinfo

/-- Ids, device numbers, root, mount point, mount options, type, source, super options. -/
def signature : Signature :=
  [.int8, .int8, .int8, .int8, .text, .text, .text, .text, .text, .text]

def leastTokens : Nat := 10

/-- A mount line without its optional fields, the device in two columns. -/
def row (line : Nat) (t : Text) : Except ParseError Row :=
  let count := (Text.tokens t).length
  if count < leastTokens then .error (.tokenCount line (.atLeast leastTokens) count)
  else match MountLine.ofText t with
    | .error cause => .error (.mountLine line cause)
    | .ok mount =>
      match Text.splitOnce? ':' mount.device with
      | none => .error (.missingDelimiter line ':')
      | some (major, minor) =>
        .ok (tokenRow [mount.mountId, mount.parentId, major, minor, mount.root, mount.mountPoint,
          mount.mountOptions, mount.fsType, mount.source, mount.superOptions])

end Mountinfo

/-! ## meminfo -/

namespace Meminfo

def signature : Signature := [.text, .int8]

/-- A key without one colon at its end. -/
def dropColon (key : Text) : Text := if key.getLast? = some ':' then key.dropLast else key

/-- A line `key: value` as it stands, or `key: value unit` in bytes. -/
def row (line : Nat) (t : Text) : Except ParseError Row :=
  match Text.tokens t with
  | [key, value] => .ok (tokenRow [dropColon key, value])
  | [key, value, unit] =>
    match Coerce.sizeToBytes value unit with
    | .ok bytes => .ok (tokenRow [dropColon key, Decimal.ofInt bytes.val])
    | .error cause => .error (.value line 2 cause)
  | tokens => .error (.tokenCount line (.oneOf [2, 3]) tokens.length)

end Meminfo

/-! ## net/dev -/

namespace NetDev

def headerLines : Nat := 2

def counters : Nat := 16

/-- The interface and its counters. -/
def signature : Signature :=
  [.text,
   .int8, .int8, .int8, .int8, .int8, .int8, .int8, .int8,
   .int8, .int8, .int8, .int8, .int8, .int8, .int8, .int8]

/-- A line `interface: counter ...`, with or without a space behind the colon. -/
def row (line : Nat) (t : Text) : Except ParseError Row :=
  match Text.splitOnce? ':' (Text.trim t) with
  | none => .error (.missingDelimiter line ':')
  | some (interface, data) =>
    let tokens := Text.tokens data
    if tokens.length = counters then .ok (tokenRow (Text.trim interface :: tokens))
    else .error (.tokenCount line (.exactly (counters + 1)) (tokens.length + 1))

/-- A row for every line behind the headers, which count as lines. -/
def rows (content : Text) : Except ParseError (List Row) :=
  eachNumbered row (headerLines + 1) ((Text.lines content).drop headerLines)

end NetDev

/-! ## stat and loadavg -/

namespace CpuTime

def counters : Nat := 5

/-- User, nice, system, idle and iowait ticks. -/
def signature : Signature := [.int8, .int8, .int8, .int8, .int8]

/-- The ticks of all processors together, which the first line gives behind its label. -/
def rows (content : Text) : Except ParseError (List Row) :=
  match Text.lines content with
  | [] => .error (.lineCount (.atLeast 1) 0)
  | first :: _ =>
    let tokens := Text.tokens first
    if tokens.length < counters + 1 then
      .error (.tokenCount 1 (.atLeast (counters + 1)) tokens.length)
    else .ok [tokenRow ((tokens.drop 1).take counters)]

end CpuTime

namespace LoadAverage

/-- The averages over one, five and fifteen minutes and the last process id. -/
def signature : Signature := [.float8, .float8, .float8, .int4]

def rows (content : Text) : Except ParseError (List Row) := do
  match Text.tokens (← singleLine content) with
  | one :: five :: fifteen :: _ :: lastPid :: _ => .ok [tokenRow [one, five, fifteen, lastPid]]
  | tokens => .error (.tokenCount 1 (.atLeast 5) tokens.length)

end LoadAverage

end Format

/-- The kernel files with a grammar of their own. -/
inductive KernelFile where
  | diskstats
  | mountinfo
  | meminfo
  | netDev
  | cpuTime
  | loadAverage
  | processStat
  deriving DecidableEq, Repr

namespace KernelFile

def signature : KernelFile → Signature
  | .diskstats => Format.Diskstats.signature
  | .mountinfo => Format.Mountinfo.signature
  | .meminfo => Format.Meminfo.signature
  | .netDev => Format.NetDev.signature
  | .cpuTime => Format.CpuTime.signature
  | .loadAverage => Format.LoadAverage.signature
  | .processStat => Format.ProcessFile.statSignature

def rows : KernelFile → Text → Except ParseError (List Row)
  | .diskstats, content => Format.rowPerLine Format.Diskstats.row content
  | .mountinfo, content => Format.rowPerLine Format.Mountinfo.row content
  | .meminfo, content => Format.rowPerLine Format.Meminfo.row content
  | .netDev, content => Format.NetDev.rows content
  | .cpuTime, content => Format.CpuTime.rows content
  | .loadAverage, content => Format.LoadAverage.rows content
  | .processStat, content => (fun row => [row]) <$> Format.ProcessFile.statRow content

end KernelFile

end HostTables
