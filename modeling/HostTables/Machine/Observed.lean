/-
  HostTables.Machine.Observed — a machine as its files describe it.

  The `status` file of a process names its parent and its owner, and the user table names the
  users. Capacities of filesystems stand in no file.
-/
import HostTables.Machine.Basic
import HostTables.Number.Decimal
import HostTables.Text.Blank

namespace HostTables

namespace ProcessStatus

/-- The words behind a label of a `status` file. -/
def wordsBehind (label : Text) (status : Text) : List Text :=
  ((Text.lines status).findSome? fun line =>
    match Text.words line with
    | first :: rest => if first = label then some rest else none
    | [] => none).getD []

/-- The parent of the process; 0 if it is not told. -/
def parent (status : Text) : Nat :=
  ((wordsBehind "PPid:".toList status)[0]?.bind Decimal.natural?).getD 0

/-- The user that the process acts for, the second of the ids on its line; 0 if it is not told. -/
def owner (status : Text) : Nat :=
  ((wordsBehind "Uid:".toList status)[1]?.bind Decimal.natural?).getD 0

end ProcessStatus

/-- The name of a user in a user table, whose lines are `name:password:id:...`. -/
def userNamed? (table : Text) (user : Nat) : Option Text :=
  (Text.lines table).findSome? fun line =>
    match line.splitOn ':' with
    | name :: _ :: id :: _ => if Decimal.natural? id = some user then some name else none
    | _ => none

namespace Machine

def ownStatusFile : Path := Path.ofString "/proc/self/status"

def userTableFile : Path := Path.ofString "/etc/passwd"

/-- The `status` file of the process whose directory is at a location. -/
def statusFileAt (location : Location) : Path := location.path.join "status".toList

/-- The text of a file, nothing if it cannot be read. -/
def textOrNothing (files : FileTree) (path : Path) : Text :=
  (files.readText path).toOption.getD []

/-- The size of a memory page. -/
def standardPageSize : UInt64 := 4096

/-- The machine that has these files and this environment. -/
def ofFiles (files : FileTree) (environment : List Setting) : Machine where
  files
  environment
  parentPid := ProcessStatus.parent (textOrNothing files ownStatusFile)
  pageSize := standardPageSize
  owner := fun location => ProcessStatus.owner (textOrNothing files (statusFileAt location))
  userName := userNamed? (textOrNothing files userTableFile)
  storage := fun _ => .error ("statfs", "ENOSYS: Function not implemented")

end Machine

end HostTables
