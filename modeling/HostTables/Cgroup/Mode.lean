/-
  HostTables.Cgroup.Mode — which cgroup layout is mounted.

  The mount table is read line by line; blank lines are skipped and the first line that is
  not UTF-8 or not a mount line is an error. What counts is only which of three kinds of
  mount there are (`modeOf?`): version 2 at the root, version 2 at `<root>/unified`, and
  version 1 at or below the root.
-/
import HostTables.Cgroup.Error

namespace HostTables

/-- The layout of the cgroup hierarchies this process sees. -/
inductive CgroupMode where
  /-- Version 1, a mount for every controller. -/
  | legacy
  /-- Version 2, one hierarchy. -/
  | unified
  /-- Version 1 with version 2 beside it. -/
  | hybrid
  | disabled
  deriving DecidableEq, Repr

def CgroupMode.name : CgroupMode → String
  | .legacy => "legacy"
  | .unified => "unified"
  | .hybrid => "hybrid"
  | .disabled => "disabled"

namespace Cgroup

/-! ## The three kinds of mount -/

def unifiedName : Text := "unified".toList

/-- A version 2 mount at the root. -/
def isUnifiedRoot (root : Path) (mount : MountLine) : Bool :=
  mount.fsType == "cgroup2".toList && Path.same ⟨mount.mountPoint⟩ root

/-- A version 2 mount at `<root>/unified`. -/
def isUnifiedBeside (root : Path) (mount : MountLine) : Bool :=
  mount.fsType == "cgroup2".toList && Path.same ⟨mount.mountPoint⟩ (root.join unifiedName)

/-- A version 1 mount at or below the root. -/
def isLegacy (root : Path) (mount : MountLine) : Bool :=
  mount.fsType == "cgroup".toList && Path.startsWith ⟨mount.mountPoint⟩ root

/-- The mode that the mounts stand for, none without a cgroup mount. -/
def modeOf? (root : Path) (mounts : List MountLine) : Option CgroupMode :=
  let atRoot := mounts.any (isUnifiedRoot root)
  let beside := mounts.any (isUnifiedBeside root)
  if mounts.any (isLegacy root) then some (if atRoot || beside then .hybrid else .legacy)
  else if atRoot then some .unified
  else none

/-! ## Reading the mount table -/

/-- The mount of a line, none for a blank line. -/
def mountOf? (origin : Path) (bytes : List UInt8) : Except CgroupError (Option MountLine) :=
  match Utf8.decode? bytes with
  | .error _ => .error (.readLine origin .notUtf8)
  | .ok line =>
    if line.all Text.isBlank then .ok none
    else match MountLine.ofText line with
      | .ok mount => .ok (some mount)
      | .error cause => .error (.mountLine origin cause)

/-- The mounts of the lines in order, up to the first bad line. -/
def mountsOf (origin : Path) : List (List UInt8) → Except CgroupError (List MountLine)
  | [] => .ok []
  | line :: rest => do
    let here ← mountOf? origin line
    return here.toList ++ (← mountsOf origin rest)

/-- The line feed byte. -/
def lineFeed : UInt8 := 0x0A

/-- The mode that the content of the mount table at `origin` stands for. -/
def modeOfContent (origin root : Path) (content : List UInt8) :
    Except CgroupError CgroupMode := do
  match modeOf? root (← mountsOf origin (content.splitOn lineFeed)) with
  | some mode => return mode
  | none => .error (.noCgroupMount root origin)

/-- The mode of the hierarchies mounted under `root`, which has to exist. -/
def detectMode (files : FileTree) (mountTable root : Path) : Except CgroupError CgroupMode :=
  match files.pathExists root with
  | .error fault => .error (.existence root fault)
  | .ok false => .error (.missingRoot root)
  | .ok true =>
    match files.openEntry mountTable with
    | .error fault => .error (.read mountTable fault)
    | .ok entry =>
      match FileTree.contentOf entry with
      | .error fault => .error (.readLine mountTable fault)
      | .ok content => modeOfContent mountTable root content

end Cgroup

end HostTables
