/-
  HostTables.Cgroup.State — the cgroups of this process, resolved.

  `resolve?` finds the mode, reads the memberships, decides whether the process runs in a
  container and builds the path table. `resolve` never fails: without an answer cgroups are
  disabled and the reason is logged. A resolved state turns names `controller.file` into
  paths (`filePath`).
-/
import HostTables.Cgroup.PathTable
import HostTables.Machine.Confined
import HostTables.Notice

namespace HostTables

/-- The cgroups of this process; fixed once resolved. -/
structure CgroupState where
  mode : CgroupMode
  containerized : Bool
  root : Path
  paths : PathTable
  deriving DecidableEq, Repr

namespace CgroupState

def disabled : CgroupState := ⟨.disabled, false, ⟨[]⟩, PathTable.empty⟩

def isEnabled (state : CgroupState) : Bool := state.mode != .disabled

end CgroupState

namespace Cgroup

/-- Whether the process runs in a container. An explicit setting decides; otherwise it does
when its own directory, as the host sees it, is not visible. If that cannot be told the root
is the only usable directory, so a container is assumed. -/
def inContainer (files : FileTree) (setting : Option Bool) (own : Option Path) :
    Bool × List Notice :=
  match setting, own with
  | some containerized, _ => (containerized, [])
  | none, none => (false, [])
  | none, some directory =>
    match files.pathExists directory with
    | .ok visible => (!visible, [])
    | .error fault => (true, [.visibilityUnknown directory fault])

/-- The files under the procfs root that cgroups are resolved from. -/
def mountTableFile : Text := "self/mountinfo".toList
def membershipFile : Text := "self/cgroup".toList

/-- The mode, unless it is hybrid, and the memberships of this process. -/
def survey (files : FileTree) (procRoot root : Path) :
    Except CgroupError (CgroupMode × List Membership) := do
  let mode ← detectMode files (procRoot.join mountTableFile) root
  if mode = .hybrid then .error .hybrid
  else
    let file := procRoot.join membershipFile
    match files.readText file with
    | .error fault => .error (.read file fault)
    | .ok content =>
      match Membership.ofContent content with
      | .error cause => .error (.parse file cause)
      | .ok members => return (mode, members)

/-- The path table of a layout. -/
def pathTable (files : FileTree) (procRoot root : Path) (mode : CgroupMode)
    (members : List Membership) (containerized : Bool) : Except CgroupError PathTable :=
  match mode with
  | .legacy => .ok (PathTable.ofLegacy root members containerized)
  | _ =>
    match Membership.unified? members with
    | none => .error (.missingUnifiedEntry (procRoot.join membershipFile))
    | some member => PathTable.ofUnified files root member.path containerized

/-- Resolves the cgroups of this process, or says what stands in the way. -/
def resolve? (files : FileTree) (procRoot root : Path) (setting : Option Bool) :
    Except CgroupError CgroupState × List Notice :=
  match survey files procRoot root with
  | .error cause => (.error cause, [])
  | .ok (mode, members) =>
    let (containerized, notices) := inContainer files setting (ownDirectory? root mode members)
    let state := do
      let paths ← pathTable files procRoot root mode members containerized
      return { mode, containerized, root, paths }
    (state, notices)

/-- Resolves the cgroups of this process; they are disabled if that is asked for or fails. -/
def resolve (files : FileTree) (enabled : Bool) (procRoot root : Path) (setting : Option Bool) :
    CgroupState × List Notice :=
  if enabled then
    match resolve? files procRoot root setting with
    | (.ok state, notices) => (state, notices)
    | (.error cause, notices) =>
      (CgroupState.disabled, notices ++ [.unresolved cause, .cgroupsOff root])
  else (CgroupState.disabled, [])

end Cgroup

end HostTables
