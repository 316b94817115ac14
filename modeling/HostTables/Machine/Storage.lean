/-
  HostTables.Machine.Storage — what a machine tells about a mounted filesystem.

  The filesystem's type is named by its magic number, its mount flags are listed in a fixed
  order, and block counts are given in blocks and in bytes. `FileSystemInfo.row` lays all of
  it out in thirteen columns.
-/
import HostTables.Format.Lines
import HostTables.Machine.FileTree

namespace HostTables

/-! ## Filesystem types -/

/-- Magic numbers of filesystems and the name each is known by. -/
def magicNames : List (Nat × String) :=
  [(0xADF5, "adfs"), (0xADFF, "affs"), (0x5346414F, "afs"), (0x9041934, "anon_inode_fs"),
   (0x187, "autofs"), (0x62646576, "bdevfs"), (0x42494E4D, "binfmtfs"), (0xCAFE4A11, "bpf_fs"),
   (0x9123683E, "btrfs"), (0x73727279, "btrfs_test"), (0x27E0EB, "cgroup"),
   (0x63677270, "cgroup2"), (0x73757245, "coda"), (0x28CD3D45, "cramfs"),
   (0x64626720, "debugfs"), (0x1CD1, "devpts"), (0xF15F, "ecryptfs"), (0xDE5E81E4, "efivarfs"),
   (0x414A53, "efs"), (0xEF53, "ext2"), (0xF2F52010, "f2fs"), (0xBAD1DEA, "futexfs"),
   (0xC0FFEE, "hostfs"), (0xF995E849, "hpfs"), (0x958458F6, "hugetlbfs"), (0x9660, "isofs"),
   (0x72B6, "jffs2"), (0x137F, "minix"), (0x138F, "minix12"), (0x2468, "minix2"),
   (0x2478, "minix22"), (0x4D5A, "minix3"), (0x4D44, "msdos"), (0x11307854, "mtd_inode_fs"),
   (0x564C, "ncp"), (0x6969, "nfs"), (0x3434, "nilfs"), (0x9FA1, "openprom"),
   (0x794C7630, "overlayfs"), (0x50495045, "pipefs"), (0x9FA0, "proc"),
   (0x6165676C, "pstorefs"), (0x2F, "qnx4"), (0x68191122, "qnx6"), (0x858458F6, "ramfs"),
   (0x52654973, "reiserfs"), (0x73636673, "securityfs"), (0xF97CFF8C, "selinux"),
   (0x43415D53, "smack"), (0x517B, "smb"), (0x534F434B, "sockfs"), (0x73717368, "squashfs"),
   (0x62656572, "sysfs"), (0x1021994, "tmpfs"), (0x9FA2, "usbdevice"), (0x1021997, "v9fs"),
   (0xABBA1974, "xenfs"), (0x58465342, "xfs")]

/-- The name of a magic number. -/
def magicName (magic : UInt32) : String := (magicNames.lookup magic.toNat).getD "unknown"

/-! ## Mount flags -/

inductive MountFlag where
  | mandlock
  | noatime
  | nodev
  | nodiratime
  | noexec
  | nosuid
  | rdonly
  | relatime
  | synchronous
  deriving DecidableEq, Repr

namespace MountFlag

/-- The flags in the order they are listed. -/
def all : List MountFlag :=
  [.mandlock, .noatime, .nodev, .nodiratime, .noexec, .nosuid, .rdonly, .relatime, .synchronous]

def name : MountFlag → String
  | .mandlock => "mandlock"
  | .noatime => "noatime"
  | .nodev => "nodev"
  | .nodiratime => "nodiratime"
  | .noexec => "noexec"
  | .nosuid => "nosuid"
  | .rdonly => "rdonly"
  | .relatime => "relatime"
  | .synchronous => "synchronous"

/-- The bit of the flag word. -/
def bit : MountFlag → Nat
  | .rdonly => 0
  | .nosuid => 1
  | .nodev => 2
  | .noexec => 3
  | .synchronous => 4
  | .mandlock => 6
  | .noatime => 10
  | .nodiratime => 11
  | .relatime => 12

/-- The flags set in a word, in listing order; other bits have no name. -/
def ofWord (word : Nat) : List MountFlag := all.filter fun flag => word.testBit flag.bit

/-- The names of the flags set in a word with commas between them. -/
def listing (word : Nat) : Text :=
  match ofWord word with
  | [] => "none".toList
  | flags => Text.joined [','] (flags.map fun flag => flag.name.toList)

end MountFlag

/-! ## Capacity -/

/-- Device, capacity and mount flags of a filesystem. -/
structure FileSystemInfo where
  major : UInt64
  minor : UInt64
  typeName : String
  blockSize : UInt64
  blocks : UInt64
  blocksFree : UInt64
  blocksAvailable : UInt64
  files : UInt64
  filesFree : UInt64
  flags : Nat
  deriving DecidableEq, Repr

namespace FileSystemInfo

/-- The bytes of a number of blocks, at most the largest 64-bit word. -/
def bytes (info : FileSystemInfo) (blocks : UInt64) : Nat :=
  min (blocks.toNat * info.blockSize.toNat) (UInt64.size - 1)

/-- Device numbers, type, block size, then all, free and available space in blocks and in
bytes, files, free files and flags. -/
def signature : Signature :=
  [.numeric, .numeric, .text,
   .numeric, .numeric, .numeric, .numeric, .numeric, .numeric, .numeric,
   .numeric, .numeric, .text]

def row (info : FileSystemInfo) : Row :=
  Format.tokenRow
    [Decimal.ofNat info.major.toNat,
     Decimal.ofNat info.minor.toNat,
     info.typeName.toList,
     Decimal.ofNat info.blockSize.toNat,
     Decimal.ofNat info.blocks.toNat,
     Decimal.ofNat (info.bytes info.blocks),
     Decimal.ofNat info.blocksFree.toNat,
     Decimal.ofNat (info.bytes info.blocksFree),
     Decimal.ofNat info.blocksAvailable.toNat,
     Decimal.ofNat (info.bytes info.blocksAvailable),
     Decimal.ofNat info.files.toNat,
     Decimal.ofNat info.filesFree.toNat,
     MountFlag.listing info.flags]

end FileSystemInfo

/-- Why a machine cannot tell about a filesystem. -/
inductive StorageError where
  | stat (path : Path) (fault : FileFault)
  | statfs (call : String) (path : Path) (reason : String)
  deriving DecidableEq, Repr

def StorageError.message : StorageError → String
  | .stat path fault => s!"stat error on path `{path.shown}`: {fault.message}"
  | .statfs call path reason => s!"{call} error on path `{path.shown}`: {reason}"

end HostTables
