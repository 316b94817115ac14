/-
  HostTables.Machine.Basic — the state of a machine that queries are answered from.

  A machine is its file tree, the environment of this process, and facts that no file holds:
  the parent process, the page size, owners of files, names of users and mounted filesystems.

  The environment is a list of settings `name=value`. A name is looked up in the settings as
  they are written: its value is what follows `name=` in the first setting that begins so. Hence
  a setting `A=b=c` answers to the name `A` with `b=c` and to the name `A=b` with `c`.
-/
import HostTables.Machine.Storage

namespace HostTables

/-! ## Settings -/

/-- A setting of the environment, `name=value`. -/
abbrev Setting := List UInt8

namespace Setting

/-- What a setting of a variable begins with. -/
def opening (name : Text) : List UInt8 := Utf8.encode (name ++ ['='])

/-- The setting of a variable. -/
def ofPair (name : Text) (value : List UInt8) : Setting := opening name ++ value

/-- What follows `name=`, if the setting begins so. -/
def valueOf? (name : Text) (setting : Setting) : Option (List UInt8) :=
  if (opening name).isPrefixOf setting then some (setting.drop (opening name).length) else none

end Setting

/-! ## Machines -/

/-- What the queries of one run are answered from. -/
structure Machine where
  files : FileTree
  environment : List Setting
  parentPid : Nat
  pageSize : UInt64
  /-- The user that owns the entry at a location. -/
  owner : Location → Nat
  userName : Nat → Option Text
  /-- The filesystem that holds a location, or the failed call and its reason. -/
  storage : Location → Except (String × String) FileSystemInfo

namespace Machine

/-- The bytes of an environment variable. Nothing is set under the empty name, and a name with
NUL cannot be asked for. -/
def variableBytes? (machine : Machine) (name : Text) : Option (List UInt8) :=
  if name = [] ∨ '\x00' ∈ name then none
  else machine.environment.findSome? (Setting.valueOf? name)

/-- The text of an environment variable; none if it is not set or not UTF-8. -/
def variableText? (machine : Machine) (name : Text) : Option Text :=
  match machine.variableBytes? name with
  | none => none
  | some bytes => (Utf8.decode? bytes).toOption

/-- The filesystem that holds a path. -/
def storageAt (machine : Machine) (path : Path) : Except StorageError FileSystemInfo :=
  match machine.files.locate path with
  | .error fault => .error (.stat path fault)
  | .ok location =>
    match machine.storage location with
    | .ok info => .ok info
    | .error (call, reason) => .error (.statfs call path reason)

end Machine

end HostTables
