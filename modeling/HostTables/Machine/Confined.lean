/-
  HostTables.Machine.Confined — file names resolved under a directory.

  A caller's name is judged by its text first. If the joined path leads somewhere, that
  place has to be the directory's own location or lie below it, with links followed on both
  sides. The places are compared even where the path is too long to be opened. A path that
  leads nowhere is passed on, so that reading it says why.
-/
import HostTables.Machine.FileTree
import HostTables.Path.Filename

namespace HostTables.FileTree

/-- The path of `name` under `root`, unless it leads out of `root`. -/
def resolveUnder (tree : FileTree) (root : Path) (name : Text) : Except FilenameError Path := do
  checkFilename name
  let path := root.join name
  match tree.canonical root, tree.canonical path with
  | .ok base, .ok location =>
    if base.isPrefixOf location then return path
    else .error (.outsideRoot location.path base.path)
  | _, _ => return path

end HostTables.FileTree
