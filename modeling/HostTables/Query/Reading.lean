/-
  HostTables.Query.Reading — by which formats the answers are made.

  The content of a cgroup or Downward API file is read in a format, and the answer is the table or a
  single value of it (`Reading`). Nothing here looks at the columns that a query declares; that those
  of the formats are the same is a theorem (`HostTables.Proofs.Query.Schema`).
-/
import HostTables.Format
import HostTables.Query.Basic

namespace HostTables

/-- How the content of a file becomes an answer. -/
inductive Reading where
  /-- The value of a one-line file. -/
  | value (type : ColumnType)
  /-- The tokens of a one-line file as one array, null if there are none. -/
  | array (type : ColumnType)
  /-- The whole table. -/
  | table (format : Format)
  deriving DecidableEq, Repr

namespace Reading

def format : Reading → Format
  | .value type => .scalar type
  | .array type => .array type
  | .table format => format

/-- The columns of the table that the answer is taken from. -/
def signature (reading : Reading) : Signature := reading.format.signature

/-- The answer of a table that has the reading's format. -/
def ofTable : Reading → Table → Answer
  | .value _, typed => .scalar typed.firstValue
  | .array _, typed => .scalar typed.firstValue.nullIfEmpty
  | .table _, typed => .table typed

/-- The answer of a subsystem that is switched off. -/
def off : Reading → Answer
  | .value _ | .array _ => .scalar .null
  | .table format => .table (Table.empty format.signature)

end Reading

def CgroupView.reading : CgroupView → Reading
  | .bigint => .value .int8
  | .float8 => .value .float8
  | .text => .value .text
  | .bigintSet => .table (.values .int8)
  | .textSet => .table (.values .text)
  | .bigintArray => .array .int8Array
  | .textArray => .array .textArray
  | .keyValues => .table .flatKeyed
  | .keySubkeyValues => .table .keySubkeyValue
  | .nestedKeyValues => .table .nestedKeyed

def PodinfoView.reading : PodinfoView → Reading
  | .keyValues => .table .quotedPairs
  | .bigint => .value .int8

/-! ## Procfs -/

namespace ProcFile

def kernelFile : ProcFile → KernelFile
  | .diskstats => .diskstats
  | .mountinfo => .mountinfo
  | .meminfo => .meminfo
  | .networkStats => .netDev
  | .cpuTime => .cpuTime
  | .loadAverage => .loadAverage

/-- The path under the procfs root. -/
def relativePath : ProcFile → Text
  | .diskstats => "diskstats".toList
  | .mountinfo => "self/mountinfo".toList
  | .meminfo => "meminfo".toList
  | .networkStats => "net/dev".toList
  | .cpuTime => "stat".toList
  | .loadAverage => "loadavg".toList

end ProcFile

end HostTables
