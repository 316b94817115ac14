/-
  HostTables.Machine.FileTree — a file tree with links, and how paths are followed in it.

  A tree maps locations, lists of names from the root, to entries. `canonical` follows a path
  step by step: every step but the last has to be a directory, a link is replaced by its
  target, and more than `linkLimit` links are refused. A path ending in a slash has to be a
  directory. `locate` is what opening and examining a file do: it follows the path in the same
  way, but refuses a path whose text is too long.
-/
import HostTables.Path.Basic
import HostTables.Text.Utf8

namespace HostTables

/-- Why a file cannot be found or read. -/
inductive FileFault where
  | notFound
  | notDirectory
  | isDirectory
  | nameTooLong
  | tooManyLinks
  | nulInPath
  | notUtf8
  /-- A failure of the system, by its number and text. -/
  | system (code : Nat) (text : String)
  deriving DecidableEq, Repr

def FileFault.message : FileFault → String
  | .notFound => "No such file or directory (os error 2)"
  | .notDirectory => "Not a directory (os error 20)"
  | .isDirectory => "Is a directory (os error 21)"
  | .nameTooLong => "File name too long (os error 36)"
  | .tooManyLinks => "Too many levels of symbolic links (os error 40)"
  | .nulInPath => "file name contained an unexpected NUL byte"
  | .notUtf8 => "stream did not contain valid UTF-8"
  | .system code text => s!"{text} (os error {code})"

/-- A place in the tree: the names that lead to it from the root. -/
abbrev Location := List Text

/-- What is found at a location. -/
inductive Entry where
  | file (content : List UInt8)
  | directory
  | link (target : Text)
  /-- A file that cannot be opened. -/
  | unreadable (fault : FileFault)
  deriving DecidableEq, Repr

/-- A file tree, and the directory where relative paths begin. The root is a directory always. -/
structure FileTree where
  entries : List (Location × Entry)
  workingDirectory : Location

namespace Location

/-- The absolute path of a location. -/
def path (location : Location) : Path := ⟨'/' :: Text.joined ['/'] location⟩

end Location

namespace FileTree

/-- The tree with nothing in it. -/
def empty : FileTree := ⟨[], []⟩

/-- The entry at a location, links not followed. -/
def entry? (tree : FileTree) : Location → Option Entry
  | [] => some .directory
  | location => tree.entries.lookup location

/-- Puts an entry at a location, in place of what was there. -/
def insert (tree : FileTree) (location : Location) (entry : Entry) : FileTree :=
  { tree with entries := (location, entry) :: tree.entries.filter fun (l, _) => l != location }

/-- Removes a location and all below it. -/
def remove (tree : FileTree) (location : Location) : FileTree :=
  { tree with entries := tree.entries.filter fun (l, _) => !location.isPrefixOf l }

/-! ## Following a path -/

/-- How many bytes a name may have. -/
def nameLimit : Nat := 255

/-- How many bytes the path of a file that is opened may have. -/
def pathLimit : Nat := 4095

/-- How many links are followed on one path. -/
def linkLimit : Nat := 40

/-- The names between the slashes of a path; a slash at the end asks for a directory, as the
name `.` does. -/
def stepsOf (t : Text) : List Text :=
  Text.fields '/' t ++ if t.getLast? = some '/' then [['.']] else []

/-- Where a walk gets to before it has to follow a link. -/
inductive Progress where
  | arrived (location : Location)
  | stopped (fault : FileFault)
  | atLink (directory : Location) (target : Text) (rest : List Text)

/-- Takes the steps from a location until one of them is a link. -/
def advance (tree : FileTree) : Location → List Text → Progress
  | here, [] => .arrived here
  | here, name :: rest =>
    if tree.entry? here ≠ some .directory then .stopped .notDirectory
    else if name = ['.'] then advance tree here rest
    else if name = ['.', '.'] then advance tree here.dropLast rest
    else if nameLimit < (Utf8.encode name).length then .stopped .nameTooLong
    else match tree.entry? (here ++ [name]) with
      | none => .stopped .notFound
      | some (.link target) => .atLink here target rest
      | some _ => advance tree (here ++ [name]) rest

/-- Where a path or the target of a link begins. -/
def startOf (t : Text) (relativeTo : Location) : Location :=
  if t.head? = some '/' then [] else relativeTo

/-- Takes the steps from a location and follows at most `links` links. -/
def walk (tree : FileTree) (links : Nat) (here : Location) (steps : List Text) :
    Except FileFault Location :=
  match tree.advance here steps with
  | .arrived location => .ok location
  | .stopped fault => .error fault
  | .atLink directory target rest =>
    match links with
    | 0 => .error .tooManyLinks
    | links + 1 => walk tree links (startOf target directory) (stepsOf target ++ rest)

/-- The location a path leads to with all links followed, however long its text is. -/
def canonical (tree : FileTree) (path : Path) : Except FileFault Location :=
  if '\x00' ∈ path.text then .error .nulInPath
  else if path.text = [] then .error .notFound
  else tree.walk linkLimit (startOf path.text tree.workingDirectory) (stepsOf path.text)

/-- Whether the text of a path has more bytes than a file can be opened with. -/
def isTooLong (path : Path) : Bool := decide (pathLimit < (Utf8.encode path.text).length)

/-- The location of a path that is to be opened or examined. -/
def locate (tree : FileTree) (path : Path) : Except FileFault Location :=
  if '\x00' ∉ path.text ∧ isTooLong path then .error .nameTooLong else tree.canonical path

/-! ## Reading -/

/-- The location and entry of a path that can be opened. -/
def openEntry (tree : FileTree) (path : Path) : Except FileFault Entry := do
  let location ← tree.locate path
  match tree.entry? location with
  | some (.unreadable fault) => .error fault
  | some entry => .ok entry
  | none => .error .notFound

/-- The content of an entry that has been opened. -/
def contentOf : Entry → Except FileFault (List UInt8)
  | .file content => .ok content
  | .directory => .error .isDirectory
  | .link _ => .error .tooManyLinks
  | .unreadable fault => .error fault

/-- The bytes of the file at a path. -/
def readBytes (tree : FileTree) (path : Path) : Except FileFault (List UInt8) := do
  contentOf (← tree.openEntry path)

/-- The text of the file at a path, ill-formed UTF-8 replaced. -/
def readText (tree : FileTree) (path : Path) : Except FileFault Text := do
  return Utf8.decodeLossy (← tree.readBytes path)

/-- Whether the path leads anywhere. Only a step that is not found means that it does not;
any other fault leaves the question open. -/
def pathExists (tree : FileTree) (path : Path) : Except FileFault Bool :=
  match tree.locate path with
  | .ok _ => .ok true
  | .error .notFound => .ok false
  | .error fault => .error fault

end FileTree

end HostTables
