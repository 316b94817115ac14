/-
  HostTables.Cgroup.Error — why the cgroups of this process cannot be resolved.
-/
import HostTables.Format.Error
import HostTables.Machine.FileTree

namespace HostTables

inductive CgroupError where
  | read (path : Path) (fault : FileFault)
  | readLine (path : Path) (fault : FileFault)
  | mountLine (path : Path) (cause : MountLineError)
  | parse (path : Path) (cause : ParseError)
  | existence (path : Path) (fault : FileFault)
  | missingRoot (path : Path)
  | noCgroupMount (root path : Path)
  | missingUnifiedEntry (path : Path)
  | hybrid
  deriving DecidableEq, Repr

/-- The report of a file that cannot be read. -/
def FileFault.readMessage (path : Path) (fault : FileFault) : String :=
  s!"failed to read file `{path.shown}`: {fault.message}"

/-- The report of a path of which it cannot be said whether it exists. -/
def FileFault.existenceMessage (path : Path) (fault : FileFault) : String :=
  s!"failed to check if path `{path.shown}` exists: {fault.message}"

def CgroupError.message : CgroupError → String
  | .read path fault => fault.readMessage path
  | .readLine path fault => s!"failed to read line for file `{path.shown}`: {fault.message}"
  | .mountLine path cause => s!"failed to parse line in file `{path.shown}`: {cause.message}"
  | .parse path cause => s!"failed to parse `{path.shown}`: {cause.message}"
  | .existence path fault => fault.existenceMessage path
  | .missingRoot path => s!"cgroup root `{path.shown}` does not exist"
  | .noCgroupMount root path => s!"no cgroup mount under `{root.shown}` in `{path.shown}`"
  | .missingUnifiedEntry path =>
    s!"no unified hierarchy entry `0::<path>` in `{path.shown}`"
  | .hybrid => "cgroup hybrid mode is not supported"

end HostTables
