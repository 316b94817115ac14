/-
  HostTables.Query.Basic — the queries and the columns they declare.

  A query over a cgroup or Downward API file is a view of that file. What a caller may expect of an
  answer is written down query by query (`Query.signature`), apart from the formats by which answers are
  made (`HostTables.Query.Reading`).
-/
import HostTables.Table.Assemble

namespace HostTables

/-! ## Queries -/

/-- The views of a cgroup file. -/
inductive CgroupView where
  | bigint
  | float8
  | text
  | bigintSet
  | textSet
  | bigintArray
  | textArray
  | keyValues
  | keySubkeyValues
  | nestedKeyValues
  deriving DecidableEq, Repr

/-- The views of a Downward API file. -/
inductive PodinfoView where
  | keyValues
  | bigint
  deriving DecidableEq, Repr

/-- The procfs files with a table of their own. -/
inductive ProcFile where
  | diskstats
  | mountinfo
  | meminfo
  | networkStats
  | cpuTime
  | loadAverage
  deriving DecidableEq, Repr

/-- What is asked about every child of a process. -/
inductive ProcessFacet where
  | io
  | commandLine
  | stat
  deriving DecidableEq, Repr

/-- A question about this process or its machine. -/
inductive Query where
  | cgroupMode
  /-- Every controller and its directory. -/
  | cgroupPaths
  | cgroupProcessCount
  | cgroupFile (view : CgroupView) (name : Text)
  | podinfoFile (view : PodinfoView) (name : Text)
  | variableText (name : Text)
  | variableBigint (name : Text)
  | procFile (file : ProcFile)
  /-- One row for every child of a process, or of the parent of this process. -/
  | children (facet : ProcessFacet) (parent : Option UInt32)
  /-- The filesystem that holds a path. -/
  | fileSystem (path : Path)
  | pagesToBytes (pages : Signed 64)
  deriving DecidableEq, Repr

/-- The columns that a query declares. -/
def Query.signature : Query → Signature
  | .cgroupMode => [.text]
  | .cgroupPaths => [.text, .text]
  | .cgroupProcessCount => [.int4]
  | .cgroupFile .bigint _ => [.int8]
  | .cgroupFile .float8 _ => [.float8]
  | .cgroupFile .text _ => [.text]
  | .cgroupFile .bigintSet _ => [.int8]
  | .cgroupFile .textSet _ => [.text]
  | .cgroupFile .bigintArray _ => [.int8Array]
  | .cgroupFile .textArray _ => [.textArray]
  | .cgroupFile .keyValues _ => [.text, .int8]
  | .cgroupFile .keySubkeyValues _ => [.text, .text, .int8]
  | .cgroupFile .nestedKeyValues _ => [.text, .text, .float8]
  | .podinfoFile .keyValues _ => [.text, .text]
  | .podinfoFile .bigint _ => [.int8]
  | .variableText _ => [.text]
  | .variableBigint _ => [.int8]
  | .procFile .diskstats =>
    [.int8, .int8, .text,
     .numeric, .numeric, .numeric, .int8,
     .numeric, .numeric, .numeric, .int8,
     .int8, .int8, .int8,
     .numeric, .numeric, .numeric, .int8,
     .numeric, .int8]
  | .procFile .mountinfo =>
    [.int8, .int8, .int8, .int8, .text, .text, .text, .text, .text, .text]
  | .procFile .meminfo => [.text, .int8]
  | .procFile .networkStats =>
    [.text,
     .int8, .int8, .int8, .int8, .int8, .int8, .int8, .int8,
     .int8, .int8, .int8, .int8, .int8, .int8, .int8, .int8]
  | .procFile .cpuTime => [.int8, .int8, .int8, .int8, .int8]
  | .procFile .loadAverage => [.float8, .float8, .float8, .int4]
  | .children .io _ =>
    [.int4, .numeric, .numeric, .numeric, .numeric, .numeric, .numeric, .numeric]
  | .children .commandLine _ => [.int4, .text, .int4, .text]
  | .children .stat _ =>
    [.int4, .text, .text,
     .int4, .int4, .int4, .int4,
     .int4, .int8, .numeric, .numeric,
     .numeric, .numeric, .numeric, .numeric,
     .int8, .int8, .int8, .int8,
     .int8, .int8, .numeric, .numeric,
     .int8, .numeric, .numeric, .numeric,
     .numeric, .numeric, .numeric, .numeric,
     .numeric, .numeric, .numeric, .numeric,
     .numeric, .numeric, .int4, .int4,
     .int8, .int8, .numeric, .numeric,
     .int8, .numeric, .numeric, .numeric,
     .numeric, .numeric, .numeric, .numeric,
     .int4]
  | .fileSystem _ =>
    [.numeric, .numeric, .text,
     .numeric, .numeric, .numeric, .numeric, .numeric, .numeric, .numeric,
     .numeric, .numeric, .text]
  | .pagesToBytes _ => [.numeric]

/-! ## Answers -/

/-- The answer to a query. -/
inductive Answer where
  | scalar (value : Value)
  | table (table : Table)
  deriving DecidableEq, Repr

/-- An array without items as null, any other value as it is. -/
def Value.nullIfEmpty : Value → Value
  | .textArray [] | .int8Array [] => .null
  | value => value

end HostTables
