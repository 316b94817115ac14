/-
  HostTables.Context — what every query is answered in: resolved cgroups and usable roots.

  Setting up a context never fails. A subsystem that cannot be used is switched off and the
  reason is logged.
-/
import HostTables.Cgroup.State
import HostTables.Config

namespace HostTables

structure Context where
  cgroup : CgroupState
  podinfoEnabled : Bool
  podinfoPath : Path
  procEnabled : Bool
  procRoot : Path
  deriving DecidableEq, Repr

namespace Context

/-- Whether the root of a subsystem exists. -/
def rootUsable (files : FileTree) (subsystem : String) (root : Path) : Bool × List Notice :=
  match files.pathExists root with
  | .ok true => (true, [])
  | .ok false => (false, [.rootMissing subsystem root])
  | .error fault => (false, [.rootUnknown root fault])

/-- Resolves cgroups, then looks for the roots of the Downward API and of procfs. -/
def ofConfig (files : FileTree) (config : Config) : Context × List Notice :=
  let (cgroup, cgroupNotices) :=
    Cgroup.resolve files config.cgroupEnabled config.procRoot config.cgroupRoot
      config.containerized
  let (podinfoEnabled, podinfoNotices) :=
    if config.podinfoEnabled then rootUsable files "kdapi" config.podinfoPath else (false, [])
  let (procEnabled, procNotices) := rootUsable files "procfs" config.procRoot
  ({ cgroup, podinfoEnabled, podinfoPath := config.podinfoPath, procEnabled,
     procRoot := config.procRoot },
   cgroupNotices ++ podinfoNotices ++ procNotices)

end Context

end HostTables
