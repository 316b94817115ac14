/-
  HostTables.Path.Filename — the names of files that a caller may ask for.

  A name is accepted when it is not empty, not absolute and has no `..` segment, faults being
  reported in this order. `outsideRoot` is found later, when links are followed.
-/
import HostTables.Path.Basic

namespace HostTables

/-- Why a file name is refused. -/
inductive FilenameError where
  | empty
  | absolute (name : Text)
  | parentReference (name : Text)
  | outsideRoot (path root : Path)
  deriving DecidableEq, Repr

def FilenameError.message : FilenameError → String
  | .empty => "empty filename"
  | .absolute name => s!"absolute path `{Text.shown name}` not allowed"
  | .parentReference name =>
    s!"reference to parent directory in `{Text.shown name}` not allowed"
  | .outsideRoot path root => s!"path `{path.shown}` resolves outside of `{root.shown}`"

/-- Judges a file name by its text alone. -/
def checkFilename (name : Text) : Except FilenameError Unit :=
  if name = [] then .error .empty
  else if Path.isAbsolute ⟨name⟩ then .error (.absolute name)
  else if Component.parent ∈ Path.components ⟨name⟩ then .error (.parentReference name)
  else .ok ()

end HostTables
