/-
  HostTables.Query.ChildProcess — one row for every child of a process.

  The children are those that procfs lists, in its order. A child whose file cannot be read or
  parsed fails the whole query; rows are typed only when all of them are there.
-/
import HostTables.Format.ProcessFile
import HostTables.Machine.Basic
import HostTables.Query.Basic
import HostTables.Query.Error

namespace HostTables

/-- The columns by which the rows of children are typed. -/
def ProcessFacet.signature : ProcessFacet → Signature
  | .io => Format.ProcessFile.ioSignature
  | .commandLine => Format.ProcessFile.commandLineSignature
  | .stat => Format.ProcessFile.statSignature

namespace ChildProcess

/-- The list of a process's children. -/
def childrenPath (procRoot : Path) (parent : Nat) : Path :=
  let id := Decimal.ofNat parent
  procRoot.join (id ++ "/task/".toList ++ id ++ "/children".toList)

/-- The directory of a process. -/
def directory (procRoot : Path) (pid : Text) : Path := procRoot.join pid

def statPath (procRoot : Path) (pid : Text) : Path := (directory procRoot pid).join "stat".toList

def ioPath (procRoot : Path) (pid : Text) : Path := (directory procRoot pid).join "io".toList

def commandLinePath (procRoot : Path) (pid : Text) : Path :=
  (directory procRoot pid).join "cmdline".toList

/-- The row of a file's content. -/
def rowOf (files : FileTree) (path : Path) (parse : Text → Except ParseError Row) :
    Except QueryError Row :=
  match files.readText path with
  | .error fault => .error (.read path fault)
  | .ok content => (parse content).mapError fun cause => .table (.malformed path cause)

/-- A process, its command line, and the id and name of the user it belongs to. -/
def commandLineRow (machine : Machine) (procRoot : Path) (pid : Text) :
    Except QueryError Row := do
  let path := commandLinePath procRoot pid
  let command ← (machine.files.readText path).mapError (QueryError.read path)
  let home := directory procRoot pid
  let location ← (machine.files.locate home).mapError (QueryError.read home)
  let user := machine.owner location
  let name := match machine.userName user with
    | some name => Cell.token name
    | none => Cell.null
  return Format.tokenRow [pid, Format.ProcessFile.commandLine command, Decimal.ofNat user] ++ [name]

/-- The row of one child. -/
def childRow (machine : Machine) (procRoot : Path) (facet : ProcessFacet) (pid : Text) :
    Except QueryError Row :=
  match facet with
  | .io => rowOf machine.files (ioPath procRoot pid) (Format.ProcessFile.ioRow pid)
  | .stat => rowOf machine.files (statPath procRoot pid) Format.ProcessFile.statRow
  | .commandLine => commandLineRow machine procRoot pid

/-- The rows of children in order, up to the first that fails. -/
def childRows (machine : Machine) (procRoot : Path) (facet : ProcessFacet) :
    List Text → Except QueryError (List Row)
  | [] => .ok []
  | pid :: rest => do
    let here ← childRow machine procRoot facet pid
    return here :: (← childRows machine procRoot facet rest)

/-- The table of a process's children. -/
def childTable (machine : Machine) (procRoot : Path) (facet : ProcessFacet) (parent : Nat) :
    Except QueryError Table := do
  let path := childrenPath procRoot parent
  let content ← (machine.files.readText path).mapError (QueryError.read path)
  let rows ← childRows machine procRoot facet (Format.ProcessFile.children content)
  (Table.assemble rows facet.signature (.file path)).mapError QueryError.table

end ChildProcess

end HostTables
