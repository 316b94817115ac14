/-
  HostTables.Query.Execute — answering queries.

  Every query reads its source anew. If the caller declares columns, they are compared with
  the query's signature before anything is read. The answer is then made by the format of what
  is read, which does not know of that signature. A subsystem that is switched off answers with
  null or with an empty table, whatever the files are; names of files are judged nevertheless.
-/
import HostTables.Context
import HostTables.Json.Table
import HostTables.Machine.Storage
import HostTables.Query.Cgroup
import HostTables.Query.ChildProcess
import HostTables.Query.Reading

namespace HostTables

namespace Query

/-- The typed table of a file. -/
def readTable (files : FileTree) (path : Path) (format : Format) : Except QueryError Table := do
  let content ← (files.readText path).mapError (QueryError.read path)
  let rows ← (format.rows content).mapError fun cause => .table (.malformed path cause)
  (Table.assemble rows format.signature (.file path)).mapError QueryError.table

/-- The answer of a file, or of the subsystem being off if there is no path. -/
def readFile (files : FileTree) (reading : Reading) : Option Path → Except QueryError Answer
  | none => .ok reading.off
  | some path => reading.ofTable <$> readTable files path reading.format

/-! ## Cgroups and the Downward API -/

/-- The path of a cgroup file, none while cgroups are disabled. -/
def cgroupPath? (files : FileTree) (context : Context) (name : Text) :
    Except QueryError (Option Path) := do
  (checkFilename name).mapError QueryError.accessDenied
  if context.cgroup.isEnabled then some <$> context.cgroup.filePath files name
  else return none

/-- The path of a Downward API file, none while it is disabled. -/
def podinfoPath? (files : FileTree) (context : Context) (name : Text) :
    Except QueryError (Option Path) := do
  (checkFilename name).mapError QueryError.accessDenied
  if context.podinfoEnabled then
    some <$> (files.resolveUnder context.podinfoPath name).mapError QueryError.accessDenied
  else return none

/-- Every controller and its directory. -/
def cgroupTable (context : Context) : Except QueryError Table :=
  let state := context.cgroup
  let source := if state.isEnabled then Source.file state.root else .disabled
  let rows := state.paths.entries.map fun (controller, path) =>
    Format.tokenRow [controller, path.text]
  (Table.assemble rows [.text, .text] source).mapError QueryError.table

/-- The number of processes in the default cgroup, at most the largest column value. -/
def processCount (files : FileTree) (context : Context) : Except QueryError Value := do
  if context.cgroup.isEnabled then
    let pids ← context.cgroup.memberPids files
    return .int4 (Signed.clamp 32 pids.length)
  else return .null

/-! ## The environment -/

/-- The text of a variable, none if it is not set. -/
def textIfSet (machine : Machine) (name : Text) : Except QueryError (Option Text) :=
  match machine.variableBytes? name with
  | none => .ok none
  | some bytes =>
    match Utf8.decode? bytes with
    | .ok text => .ok (some text)
    | .error _ => .error (.badVariable name .notUnicode)

/-- The text of a variable. -/
def textOf (machine : Machine) (name : Text) : Except QueryError Value := do
  match ← textIfSet machine name with
  | some text => return .text text
  | none => return .null

/-- The integer in a variable. -/
def bigintOf (machine : Machine) (name : Text) : Except QueryError Value := do
  match ← textIfSet machine name with
  | none => return .null
  | some text =>
    match (Decimal.integer? text).bind (Signed.ofInt? 64) with
    | some n => return .int8 n
    | none => .error (.badVariable name .notInteger)

/-! ## Procfs and the machine -/

/-- The table of a procfs file. -/
def procTable (files : FileTree) (context : Context) (file : ProcFile) :
    Except QueryError Table :=
  if context.procEnabled then
    readTable files (context.procRoot.join file.relativePath) (.kernel file.kernelFile)
  else .ok (Table.empty file.kernelFile.signature)

/-- The table of a process's children. -/
def childrenTable (machine : Machine) (context : Context) (facet : ProcessFacet)
    (parent : Option UInt32) : Except QueryError Table :=
  if context.procEnabled then
    ChildProcess.childTable machine context.procRoot facet
      ((parent.map UInt32.toNat).getD machine.parentPid)
  else .ok (Table.empty facet.signature)

/-- The filesystem that holds a path. It shares the switch of procfs. -/
def fileSystemTable (machine : Machine) (context : Context) (path : Path) :
    Except QueryError Table :=
  if context.procEnabled then do
    let info ← (machine.storageAt path).mapError QueryError.storage
    (Table.assemble [info.row] FileSystemInfo.signature (.file path)).mapError QueryError.table
  else .ok (Table.empty FileSystemInfo.signature)

/-- The bytes of a number of memory pages. -/
def bytesOfPages (machine : Machine) (pages : Signed 64) : Value :=
  .numeric (Signed.clamp 128 (pages.val * machine.pageSize.toNat))

/-! ## Answers -/

/-- The answer to a query whose columns are not in question. -/
def answer (machine : Machine) (context : Context) : Query → Except QueryError Answer
  | .cgroupMode => .ok (.scalar (.text context.cgroup.mode.name.toList))
  | .cgroupPaths => Answer.table <$> cgroupTable context
  | .cgroupProcessCount => Answer.scalar <$> processCount machine.files context
  | .cgroupFile view name => do
    readFile machine.files view.reading (← cgroupPath? machine.files context name)
  | .podinfoFile view name => do
    readFile machine.files view.reading (← podinfoPath? machine.files context name)
  | .variableText name => Answer.scalar <$> textOf machine name
  | .variableBigint name => Answer.scalar <$> bigintOf machine name
  | .procFile file => Answer.table <$> procTable machine.files context file
  | .children facet parent => Answer.table <$> childrenTable machine context facet parent
  | .fileSystem path => Answer.table <$> fileSystemTable machine context path
  | .pagesToBytes pages => .ok (.scalar (bytesOfPages machine pages))

/-- The answer to a query; columns that the caller declares have to be its signature. -/
def execute (machine : Machine) (context : Context) (expected : Option Signature)
    (query : Query) : Except QueryError Answer :=
  match expected with
  | none => query.answer machine context
  | some columns =>
    if columns = query.signature then query.answer machine context
    else .error (.schemaMismatch columns query.signature)

end Query

/-- The JSON form of an answer: a bare value or a table. -/
def Answer.json : Answer → Json
  | .scalar value => value.json
  | .table typed => typed.json

end HostTables
