/-
  HostTables.Query.Cgroup — the files of this process's cgroups and the processes in them.

  A file is named `controller.file`. The controller gives the directory, and the whole name is
  resolved under it.
-/
import HostTables.Cgroup.State
import HostTables.Query.Error

namespace HostTables.CgroupState

/-- The path of a file name, judged before the controller is looked up. -/
def filePath (files : FileTree) (state : CgroupState) (name : Text) : Except QueryError Path := do
  (checkFilename name).mapError QueryError.accessDenied
  match Text.splitOnce? '.' name with
  | none => .error (.missingControllerPrefix name)
  | some (controller, _) =>
    match state.paths.get? controller with
    | none => .error (.unknownController controller)
    | some directory => (files.resolveUnder directory name).mapError QueryError.accessDenied

/-! ## Member processes -/

/-- The file that lists the processes of the default cgroup. -/
def processesFile : Text := "cgroup.procs".toList

/-- The process id on a line. -/
def pidOf (row : Nat) (line : Text) : Except ParseError UInt32 :=
  match (Decimal.unsigned? (Text.trim line)).filter fun n => n < UInt32.size with
  | some n => .ok (UInt32.ofNat n)
  | none => .error (.value row 1 (.invalid line "pid"))

/-- Puts a process id into an increasing list, once. -/
def insertPid (pid : UInt32) : List UInt32 → List UInt32
  | [] => [pid]
  | next :: rest =>
    if pid < next then pid :: next :: rest
    else if pid = next then next :: rest
    else next :: insertPid pid rest

/-- The process ids that a list names, in increasing order. -/
def pidsOf (content : Text) : Except ParseError (List UInt32) := do
  return (← Format.eachNumbered pidOf 1 (Text.lines content)).foldr insertPid []

/-- The processes of the default cgroup, in increasing order. -/
def memberPids (files : FileTree) (state : CgroupState) : Except QueryError (List UInt32) := do
  let path ← filePath files state processesFile
  match files.readText path with
  | .error fault => .error (.read path fault)
  | .ok content => (pidsOf content).mapError fun cause => .table (.malformed path cause)

end HostTables.CgroupState
