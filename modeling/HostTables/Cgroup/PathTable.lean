/-
  HostTables.Cgroup.PathTable — the directory of every controller.

  A table keeps the first directory it is given for a name (`insert`), in the order in which
  names first appear. The default entry, `cgroup`, is for callers that name no controller.
-/
import HostTables.Cgroup.Membership

namespace HostTables

/-- Controllers and their directories, in insertion order. -/
structure PathTable where
  entries : List (Text × Path)
  deriving DecidableEq, Repr

namespace PathTable

def empty : PathTable := ⟨[]⟩

/-- The name of the default entry. -/
def defaultName : Text := "cgroup".toList

/-- The directory of exactly this name. -/
def entry? (table : PathTable) (name : Text) : Option Path := table.entries.lookup name

/-- Adds a name unless it is there already. -/
def insert (table : PathTable) (name : Text) (path : Path) : PathTable :=
  if (table.entry? name).isSome then table else ⟨table.entries ++ [(name, path)]⟩

/-- Adds several names for one directory. -/
def insertAll (table : PathTable) (names : List Text) (path : Path) : PathTable :=
  names.foldl (fun table name => table.insert name path) table

/-- The directory of a controller; no name means the default entry. -/
def get? (table : PathTable) (controller : Text) : Option Path :=
  table.entry? (if controller = [] then defaultName else controller)

/-- The directory of the default entry. -/
def default? (table : PathTable) : Option Path := table.entry? defaultName

/-! ## Version 1 -/

/-- The names under which a membership is entered: its key, and the parts of a combined key. -/
def namesOf (m : Membership) : List Text :=
  if m.keyParts.length > 1 then m.key :: m.keyParts else [m.key]

/-- The memberships that a version 1 table is built from: those with a key. -/
def keyed (ms : List Membership) : List Membership := ms.filter fun m => m.key != []

/-- The membership whose directory the default entry gets: the first with the own controller,
otherwise the first of all. -/
def defaultMember? (ms : List Membership) : Option Membership :=
  (Membership.legacyOwn? (keyed ms)).or (keyed ms).head?

/-- The table of a version 1 layout. -/
def ofLegacy (root : Path) (ms : List Membership) (containerized : Bool) : PathTable :=
  let table := (keyed ms).foldl
    (fun table m => table.insertAll (namesOf m) (Cgroup.legacyDirectory root containerized m)) empty
  match defaultMember? ms with
  | some m => table.insert defaultName (Cgroup.legacyDirectory root containerized m)
  | none => table

/-! ## Version 2 -/

def controllersFile : Text := "cgroup.controllers".toList

/-- The controllers that a `cgroup.controllers` file lists. -/
def controllersOf (content : Text) : Except ParseError (List Text) :=
  if content.all Text.isBlank then .ok []
  else return Text.tokens (← Format.singleLine content)

/-- The directory of a version 2 cgroup. -/
def unifiedDirectory (root : Path) (path : Text) (containerized : Bool) : Path :=
  if containerized then root else Cgroup.directoryUnder root path

/-- The table of a version 2 layout: every controller has the one directory. -/
def ofUnified (files : FileTree) (root : Path) (path : Text) (containerized : Bool) :
    Except CgroupError PathTable :=
  let directory := unifiedDirectory root path containerized
  let file := directory.join controllersFile
  match files.readText file with
  | .error fault => .error (.read file fault)
  | .ok content =>
    match controllersOf content with
    | .error cause => .error (.parse file cause)
    | .ok controllers =>
      .ok (empty.insertAll (controllers ++ [defaultName]) directory)

end PathTable

end HostTables
