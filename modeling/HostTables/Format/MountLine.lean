/-
  HostTables.Format.MountLine — one line of a `mountinfo` file.

  A line has six fields and any number of optional ones, then ` - `, then three fields and
  whatever the filesystem adds. The first ` - ` is the separator; on both sides fields are
  cut at blanks.
-/
import HostTables.Text.Blank

namespace HostTables

/-- The fields a mount line must have. -/
inductive MountField where
  | mountId
  | parentId
  | device
  | root
  | mountPoint
  | mountOptions
  | fsType
  | source
  | superOptions
  deriving DecidableEq, Repr

def MountField.name : MountField → String
  | .mountId => "mount_id"
  | .parentId => "parent_id"
  | .device => "major:minor"
  | .root => "root"
  | .mountPoint => "mount_point"
  | .mountOptions => "mount_options"
  | .fsType => "fs_type"
  | .source => "source"
  | .superOptions => "super_options"

/-- The fields before the separator, in order. -/
def MountField.leading : List MountField :=
  [.mountId, .parentId, .device, .root, .mountPoint, .mountOptions]

/-- The fields behind the separator, in order. -/
def MountField.trailing : List MountField := [.fsType, .source, .superOptions]

/-- Why a line is not a mount line. -/
inductive MountLineError where
  | missingSeparator (line : Text)
  | missingLeading (field : MountField) (line : Text)
  | missingTrailing (field : MountField) (line : Text)
  deriving DecidableEq, Repr

def MountLineError.message : MountLineError → String
  | .missingSeparator line => s!"missing separator ` - ` in line: `{Text.shown line}`"
  | .missingLeading field line =>
    s!"missing `{field.name}` in pre-separator section of line: `{Text.shown line}`"
  | .missingTrailing field line =>
    s!"missing `{field.name}` in post-separator section of line: `{Text.shown line}`"

/-- The fields of a mount line. -/
structure MountLine where
  mountId : Text
  parentId : Text
  device : Text
  root : Text
  mountPoint : Text
  mountOptions : Text
  optional : List Text
  fsType : Text
  source : Text
  superOptions : Text
  deriving DecidableEq, Repr

namespace MountLine

/-- The text before and after the first ` - `. -/
def splitSeparator? : Text → Option (Text × Text)
  | [] => none
  | ' ' :: '-' :: ' ' :: rest => some ([], rest)
  | c :: rest => (splitSeparator? rest).map fun (before, after) => (c :: before, after)

/-- The text without the line feeds at its end. -/
def dropLineFeeds (t : Text) : Text := (t.reverse.dropWhile (· == '\n')).reverse

/-- The first of `fields` for which there is no word. -/
def firstMissing? (fields : List MountField) (words : List Text) : Option MountField :=
  (fields.drop words.length).head?

/-- The mount line of a text. Fields before the separator are missed before those behind it. -/
def ofText (t : Text) : Except MountLineError MountLine :=
  let line := dropLineFeeds t
  match splitSeparator? line with
  | none => .error (.missingSeparator line)
  | some (before, after) =>
    match Text.words before, Text.words after with
    | mountId :: parentId :: device :: root :: mountPoint :: mountOptions :: optional,
      fsType :: source :: superOptions :: _ =>
      .ok { mountId, parentId, device, root, mountPoint, mountOptions, optional,
            fsType, source, superOptions }
    | leading, trailing =>
      match firstMissing? MountField.leading leading with
      | some field => .error (.missingLeading field line)
      | none =>
        .error (.missingTrailing
          ((firstMissing? MountField.trailing trailing).getD .superOptions) line)

end MountLine

end HostTables
