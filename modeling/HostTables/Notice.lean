/-
  HostTables.Notice — what is logged when something is switched off or ignored.
-/
import HostTables.Cgroup.Error

namespace HostTables

inductive Severity where
  | error
  | warning
  deriving DecidableEq, Repr

def Severity.label : Severity → String
  | .error => "ERROR"
  | .warning => "WARN"

/-- A logged event. -/
inductive Notice where
  /-- The cgroups of this process cannot be resolved. -/
  | unresolved (cause : CgroupError)
  /-- For that reason cgroups are switched off. -/
  | cgroupsOff (root : Path)
  /-- It cannot be said whether this process's cgroup is visible. -/
  | visibilityUnknown (path : Path) (fault : FileFault)
  /-- It cannot be said whether the root of a subsystem exists. -/
  | rootUnknown (root : Path) (fault : FileFault)
  /-- The root of a subsystem does not exist. -/
  | rootMissing (subsystem : String) (root : Path)
  /-- A switch in the environment is neither on nor off. -/
  | badSwitch (name : String)
  deriving DecidableEq, Repr

namespace Notice

def severity : Notice → Severity
  | .unresolved _ | .rootUnknown .. | .badSwitch _ => .error
  | .cgroupsOff _ | .visibilityUnknown .. | .rootMissing .. => .warning

def message : Notice → String
  | .unresolved cause => cause.message
  | .cgroupsOff root => s!"cgroup support forced to `disabled` for root `{root.shown}`"
  | .visibilityUnknown path fault =>
    "Cgroup visibility check failed during runtime detection: " ++ fault.existenceMessage path
  | .rootUnknown root fault => fault.existenceMessage root
  | .rootMissing subsystem root =>
    s!"{subsystem} root `{root.shown}` does not exist, disabling {subsystem}"
  | .badSwitch name =>
    s!"environment variable `{name}`: expected one of on/off/true/false/yes/no/1/0"

/-- Severity and text. -/
def line (notice : Notice) : String := s!"{notice.severity.label} {notice.message}"

end Notice

end HostTables
