/-
  HostTables.Cgroup.Membership — the lines of `self/cgroup`.

  A line `id:controllers:path` says in which cgroup of a hierarchy this process is. Version 1
  hierarchies list their controllers or a `name=`; version 2 is the line `0::path`.
-/
import HostTables.Cgroup.Mode
import HostTables.Format.Lines

namespace HostTables

/-- A line of `self/cgroup`. -/
structure Membership where
  hierarchy : Text
  controllers : Text
  path : Text
  deriving DecidableEq, Repr

namespace Membership

/-- The controllers without what stands before an `=`. -/
def key (m : Membership) : Text :=
  match Text.splitOnce? '=' m.controllers with
  | some (_, name) => name
  | none => m.controllers

/-- The single controllers of the key. -/
def keyParts (m : Membership) : List Text := m.key.splitOn ','

/-- A line with two colons; the path may have more. -/
def ofText (line : Nat) (t : Text) : Except ParseError Membership :=
  match Text.splitOnce? ':' t with
  | none => .error (.missingDelimiter line ':')
  | some (hierarchy, rest) =>
    match Text.splitOnce? ':' rest with
    | none => .error (.missingDelimiter line ':')
    | some (controllers, path) => .ok { hierarchy, controllers, path }

/-- The lines of a file. -/
def ofContent (content : Text) : Except ParseError (List Membership) :=
  Format.eachNumbered ofText 1 (Text.lines content)

/-- The controller whose cgroup stands for this process in version 1. -/
def ownController : Text := "memory".toList

/-- The line of the version 2 hierarchy. -/
def isUnified (m : Membership) : Bool := m.hierarchy == ['0'] && m.controllers == []

/-- A line whose key has the own controller as one of its parts. -/
def isLegacyOwn (m : Membership) : Bool := m.keyParts.contains ownController

def unified? (ms : List Membership) : Option Membership := ms.find? isUnified

def legacyOwn? (ms : List Membership) : Option Membership := ms.find? isLegacyOwn

end Membership

namespace Cgroup

/-- The directory of a cgroup path under `base`; the slashes in front of the path are dropped,
so that it cannot replace the base. -/
def directoryUnder (base : Path) (path : Text) : Path :=
  match path.dropWhile (· == '/') with
  | [] => base
  | relative => base.join relative

/-- The directory in which a version 1 hierarchy is mounted. -/
def mountOf (root : Path) (m : Membership) : Path := root.join m.key

/-- The directory of a membership in a version 1 hierarchy: its mount if only this process's
cgroup is visible there, otherwise the cgroup's own directory below. -/
def legacyDirectory (root : Path) (containerized : Bool) (m : Membership) : Path :=
  if containerized then mountOf root m else directoryUnder (mountOf root m) m.path

/-- The directory of this process's cgroup as the host sees it. -/
def ownDirectory? (root : Path) (mode : CgroupMode) (ms : List Membership) : Option Path :=
  match mode with
  | .unified => (Membership.unified? ms).map fun m => directoryUnder root m.path
  | .legacy => (Membership.legacyOwn? ms).map fun m => directoryUnder (mountOf root m) m.path
  | .hybrid | .disabled => none

end Cgroup

end HostTables
