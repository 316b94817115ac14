/-
  HostTables.Config — where the subsystems are and whether they are wanted.

  The configuration comes from the environment. An unset variable keeps the default, and so
  does a switch whose text is neither on nor off, which is logged.
-/
import HostTables.Machine.Basic
import HostTables.Notice

namespace HostTables

structure Config where
  cgroupEnabled : Bool
  cgroupRoot : Path
  /-- Decides whether this process runs in a container, if set. -/
  containerized : Option Bool
  podinfoEnabled : Bool
  podinfoPath : Path
  procRoot : Path
  deriving DecidableEq, Repr

namespace Config

/-- The configuration of an empty environment. -/
def standard : Config where
  cgroupEnabled := true
  cgroupRoot := Path.ofString "/sys/fs/cgroup"
  containerized := none
  podinfoEnabled := true
  podinfoPath := Path.ofString "/etc/podinfo"
  procRoot := Path.ofString "/proc"

/-! ## Variables -/

def cgroupEnabledVariable : String := "NODEMX_CGROUP_ENABLED"
def cgroupRootVariable : String := "NODEMX_CGROUP_ROOT"
def containerizedVariable : String := "NODEMX_CONTAINERIZED"
def podinfoEnabledVariable : String := "NODEMX_KDAPI_ENABLED"
def podinfoPathVariable : String := "NODEMX_KDAPI_PATH"
def procRootVariable : String := "NODEMX_PROC_ROOT"

/-- The state of a switch, in any case and with blanks around it. -/
def switch? (t : Text) : Option Bool :=
  let word := Text.lower (Text.trim t)
  if ["on", "true", "yes", "1"].any fun w => w.toList == word then some true
  else if ["off", "false", "no", "0"].any fun w => w.toList == word then some false
  else none

/-- The state of the switch in a variable; a text that is no state is logged. -/
def readSwitch (machine : Machine) (name : String) : Option Bool × List Notice :=
  match machine.variableText? name.toList with
  | none => (none, [])
  | some t =>
    match switch? t with
    | some state => (some state, [])
    | none => (none, [.badSwitch name])

/-- The path in a variable. -/
def readPath (machine : Machine) (name : String) (otherwise : Path) : Path :=
  match machine.variableText? name.toList with
  | some t => ⟨t⟩
  | none => otherwise

/-- The configuration that the environment of a machine asks for. -/
def ofEnvironment (machine : Machine) : Config × List Notice :=
  let (cgroupEnabled, cgroupNotices) := readSwitch machine cgroupEnabledVariable
  let (containerized, containerNotices) := readSwitch machine containerizedVariable
  let (podinfoEnabled, podinfoNotices) := readSwitch machine podinfoEnabledVariable
  ({ cgroupEnabled := cgroupEnabled.getD standard.cgroupEnabled
     cgroupRoot := readPath machine cgroupRootVariable standard.cgroupRoot
     containerized
     podinfoEnabled := podinfoEnabled.getD standard.podinfoEnabled
     podinfoPath := readPath machine podinfoPathVariable standard.podinfoPath
     procRoot := readPath machine procRootVariable standard.procRoot },
   cgroupNotices ++ containerNotices ++ podinfoNotices)

end Config

end HostTables
