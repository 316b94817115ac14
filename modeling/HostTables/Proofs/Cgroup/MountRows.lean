/-
  HostTables.Proofs.Cgroup.MountRows — the mode can be told from the rows of the mount table.

  The mount table has two readers. One makes a row of every non-empty line; the other takes the
  bytes line by line, skips blank lines and asks which mounts there are. Where the first reader
  succeeds, every line that is not empty is a mount line (`rowOf_of_row`), so the second one reads
  on to the end and sees the same mounts (`readable_of_rowsOf`, `places_of_rowsOf`). Of a mount the
  mode needs only its `MountPlace`, which is what two columns of its row say. `rows_tell_mode`: the
  mode is that of the places in the rows, and tables with the same places in whatever rows have the
  same.
-/
import HostTables.Format
import HostTables.Proofs.Cgroup.Mode

namespace HostTables

/-! ## Places -/

/-- Where a filesystem of which type is mounted. -/
structure MountPlace where
  mountPoint : Text
  fsType : Text
  deriving DecidableEq, Repr

/-- What the sixth and the eighth column of a row say. -/
def MountPlace.ofRow? (row : Row) : Option MountPlace :=
  match row.drop 5 with
  | .token mountPoint :: _ :: .token fsType :: _ => some ⟨mountPoint, fsType⟩
  | _ => none

def MountLine.place (mount : MountLine) : MountPlace := ⟨mount.mountPoint, mount.fsType⟩

namespace Cgroup

def placesOf (rows : List Row) : List MountPlace := rows.filterMap MountPlace.ofRow?

/-- A mount of the kind is at the place. -/
def MountKind.At (root : Path) (place : MountPlace) : MountKind → Prop
  | .atRoot => place.fsType = "cgroup2".toList ∧ (Path.mk place.mountPoint).components = root.components
  | .beside =>
    place.fsType = "cgroup2".toList ∧ (Path.mk place.mountPoint).components = (root.join unifiedName).components
  | .below => place.fsType = "cgroup".toList ∧ root.components <+: (Path.mk place.mountPoint).components

instance (root : Path) (place : MountPlace) : (kind : MountKind) → Decidable (kind.At root place)
  | .atRoot => inferInstanceAs (Decidable (_ ∧ _))
  | .beside => inferInstanceAs (Decidable (_ ∧ _))
  | .below => inferInstanceAs (Decidable (_ ∧ _))

/-- The mode that mounts at these places stand for, none without a cgroup mount at the root or below it. -/
def modeAt? (root : Path) (places : List MountPlace) : Option CgroupMode :=
  if ∃ place ∈ places, MountKind.below.At root place then
    if (∃ place ∈ places, MountKind.atRoot.At root place) ∨ ∃ place ∈ places, MountKind.beside.At root place then
      some .hybrid
    else some .legacy
  else if ∃ place ∈ places, MountKind.atRoot.At root place then some .unified
  else none

/-- The answer of detection: the mode, or that there is no cgroup mount. -/
def modeAnswer (origin root : Path) : Option CgroupMode → Except CgroupError CgroupMode
  | some mode => .ok mode
  | none => .error (.noCgroupMount root origin)

theorem has_iff_place {root : Path} {kind : MountKind} {mounts : List MountLine} :
    Has root kind mounts ↔ ∃ place ∈ mounts.map MountLine.place, kind.At root place := by
  have hkind : ∀ mount, kind.Of root mount ↔ kind.At root mount.place := by
    intro mount
    cases kind <;> exact Iff.rfl
  simp [Has, hkind]

/-- Of the mounts the mode depends on their places only. -/
theorem modeOf?_eq_modeAt? (root : Path) (mounts : List MountLine) :
    modeOf? root mounts = modeAt? root (mounts.map MountLine.place) := by
  simp only [modeOf?, modeAt?, ← has_iff_place, any_isLegacy, Bool.or_eq_true, any_isUnifiedRoot, any_isUnifiedBeside]
  split <;> split <;> rfl

/-- The order of the places and how often each is listed does not matter. -/
theorem modeAt?_congr {root : Path} {places places' : List MountPlace}
    (h : ∀ place, place ∈ places ↔ place ∈ places') : modeAt? root places = modeAt? root places' := by
  simp only [modeAt?, h]

/-! ## Rows -/

variable {content : Text} {rows : List Row}

/-- Empty lines stand for no mount, so those between the others may be left out. -/
theorem mountsIn_lines (content : Text) : mountsIn (Text.lines content) = mountsIn (tableLines content) := by
  simp only [mountsIn, Text.lines, Text.fields, List.filterMap_filter]
  refine List.filterMap_congr fun line _ => ?_
  cases line with
  | nil => rfl
  | cons c rest => rfl

/-- The row has the place of the mount that the line stands for. -/
def RowOf (line : Text) (row : Row) : Prop :=
  ∃ mount, MountLine.ofText line = .ok mount ∧ MountPlace.ofRow? row = some mount.place

theorem rowOf_of_row {n : Nat} {line : Text} {row : Row} (h : Format.Mountinfo.row n line = .ok row) : RowOf line row := by
  simp only [Format.Mountinfo.row] at h
  split at h
  · cases h
  · split at h
    · cases h
    · rename_i mount hmount
      split at h
      · cases h
      · cases h
        exact ⟨mount, hmount, rfl⟩

/-- The rows of a table are those of its lines. -/
theorem rowsOf_of_rows (h : (Format.kernel .mountinfo).rows content = .ok rows) :
    List.Forall₂ RowOf (Text.lines content) rows :=
  (Format.forall₂_of_eachNumbered h).imp fun _ _ ⟨_, hrow⟩ => rowOf_of_row hrow

/-- The rows name the places of the mounts in order, and no row is without a place. -/
theorem places_of_rowsOf {lines : List Text} (h : List.Forall₂ RowOf lines rows) :
    placesOf rows = (mountsIn lines).map MountLine.place ∧ (placesOf rows).length = rows.length := by
  induction h with
  | nil => exact ⟨rfl, rfl⟩
  | @cons line row lines rows hline _ ih =>
    obtain ⟨mount, hmount, hplace⟩ := hline
    obtain ⟨hplaces, hlength⟩ := ih
    have hcons : placesOf (row :: rows) = mount.place :: placesOf rows := List.filterMap_cons_some hplace
    have hmounts : mountsIn (line :: lines) = mount :: mountsIn lines :=
      List.filterMap_cons_some (by rw [hmount]; rfl)
    refine ⟨?_, ?_⟩
    · rw [hcons, hmounts, hplaces, List.map_cons]
    · rw [hcons, List.length_cons, List.length_cons, hlength]

theorem readable_of_rowsOf {lines : List Text} (h : List.Forall₂ RowOf lines rows) : Readable lines := by
  induction h with
  | nil => exact readable_nil
  | cons hline _ ih =>
    obtain ⟨mount, hmount, -⟩ := hline
    exact readable_cons.mpr ⟨Or.inr (by rw [hmount]; rfl), ih⟩

/-- Leaving out empty lines hides neither a mount nor a line that cannot be read. -/
theorem readable_lines_iff (content : Text) : Readable (Text.lines content) ↔ Readable (tableLines content) := by
  constructor
  · intro h line hline
    by_cases hempty : line = []
    · exact Or.inl (by rw [hempty]; rfl)
    · exact h line (List.mem_filter.mpr ⟨hline, by simpa using hempty⟩)
  · exact fun h line hline => h line (List.mem_filter.mp hline).1

/-! ## Both readers -/

variable {origin root : Path}

/-- The answer of detection is told by the rows of the table. -/
theorem detectMode_of_rows {files : FileTree} (h : (Format.kernel .mountinfo).rows content = .ok rows)
    (hroot : files.pathExists root = .ok true) (hread : files.readBytes origin = .ok (Utf8.encode content)) :
    detectMode files origin root = modeAnswer origin root (modeAt? root (placesOf rows)) := by
  have hrows := rowsOf_of_rows h
  have hreadable : Readable (tableLines content) := (readable_lines_iff content).mp (readable_of_rowsOf hrows)
  rw [detectMode_of_content hroot hread, modeOfContent_of_readable origin root hreadable, modeOf?_eq_modeAt?,
    ← mountsIn_lines, ← (places_of_rowsOf hrows).1]
  rfl

/-- Where the mount table gives rows, every row says where a mount is, and the mode is that of these places:
    the only error is that there is no cgroup mount, and other rows with the same places give the same
    answer. -/
theorem rows_tell_mode (origin root : Path) :
    (∀ (content : Text) (rows : List Row), (Format.kernel .mountinfo).rows content = .ok rows →
      (placesOf rows).length = rows.length ∧
      ∀ files : FileTree, files.pathExists root = .ok true → files.readBytes origin = .ok (Utf8.encode content) →
        detectMode files origin root = modeAnswer origin root (modeAt? root (placesOf rows)) ∧
        ∀ e, detectMode files origin root = .error e → e = .noCgroupMount root origin) ∧
    ∀ (content content' : Text) (rows rows' : List Row), (Format.kernel .mountinfo).rows content = .ok rows →
      (Format.kernel .mountinfo).rows content' = .ok rows' →
      (∀ place, place ∈ placesOf rows ↔ place ∈ placesOf rows') →
      ∀ files files' : FileTree, files.pathExists root = .ok true → files'.pathExists root = .ok true →
        files.readBytes origin = .ok (Utf8.encode content) → files'.readBytes origin = .ok (Utf8.encode content') →
        detectMode files origin root = detectMode files' origin root := by
  refine ⟨?_, ?_⟩
  · intro content rows h
    refine ⟨(places_of_rowsOf (rowsOf_of_rows h)).2, ?_⟩
    intro files hroot hread
    have hmode := detectMode_of_rows h hroot hread
    refine ⟨hmode, ?_⟩
    intro e he
    rw [hmode] at he
    cases hplaces : modeAt? root (placesOf rows) with
    | some mode =>
      rw [hplaces] at he
      cases he
    | none =>
      rw [hplaces] at he
      cases he
      rfl
  · intro content content' rows rows' h h' hsame files files' hroot hroot' hread hread'
    rw [detectMode_of_rows h hroot hread, detectMode_of_rows h' hroot' hread', modeAt?_congr hsame]

/-- Version 2 at the root, and version 1 beside it. -/
def plainTable : Text :=
  "35 24 0:30 / /cg rw - cgroup2 cgroup2 rw\n30 24 0:27 / /cg-x rw - cgroup cgroup rw\n".toList

def plainRows : List Row :=
  [Format.tokenRow (["35", "24", "0", "30", "/", "/cg", "rw", "cgroup2", "cgroup2", "rw"].map String.toList),
    Format.tokenRow (["30", "24", "0", "27", "/", "/cg-x", "rw", "cgroup", "cgroup", "rw"].map String.toList)]

/-- The same places the other way round, one of them listed twice, and empty lines between. -/
def stackedTable : Text :=
  "\n31 1 0:9 /a /cg-x ro shared:1 - cgroup none rw\n\n36 2 0:3 / /cg rw - cgroup2 a rw\n35 2 0:4 / /cg rw - cgroup2 b ro".toList

def stackedRows : List Row :=
  [Format.tokenRow (["31", "1", "0", "9", "/a", "/cg-x", "ro", "cgroup", "none", "rw"].map String.toList),
    Format.tokenRow (["36", "2", "0", "3", "/", "/cg", "rw", "cgroup2", "a", "rw"].map String.toList),
    Format.tokenRow (["35", "2", "0", "4", "/", "/cg", "rw", "cgroup2", "b", "ro"].map String.toList)]

theorem stacked_mounts_same_mode :
    (Format.kernel .mountinfo).rows plainTable = .ok plainRows ∧
    (Format.kernel .mountinfo).rows stackedTable = .ok stackedRows ∧
    (placesOf stackedRows).length = 3 ∧
    detectMode (treeOf (Utf8.encode plainTable)) (.ofString "/mountinfo") (.ofString "/cg") = .ok .unified ∧
    detectMode (treeOf (Utf8.encode plainTable)) (.ofString "/mountinfo") (.ofString "/cg") =
      detectMode (treeOf (Utf8.encode stackedTable)) (.ofString "/mountinfo") (.ofString "/cg") := by
  obtain ⟨told, same⟩ := rows_tell_mode (.ofString "/mountinfo") (.ofString "/cg")
  have hplain : (Format.kernel .mountinfo).rows plainTable = .ok plainRows := by decide +kernel
  have hstacked : (Format.kernel .mountinfo).rows stackedTable = .ok stackedRows := by decide +kernel
  have hsame : ∀ place, place ∈ placesOf plainRows ↔ place ∈ placesOf stackedRows := by
    have hplaces : placesOf stackedRows = [⟨"/cg-x".toList, "cgroup".toList⟩, ⟨"/cg".toList, "cgroup2".toList⟩,
      ⟨"/cg".toList, "cgroup2".toList⟩] := by decide
    have hplaces' : placesOf plainRows = [⟨"/cg".toList, "cgroup2".toList⟩,
      ⟨"/cg-x".toList, "cgroup".toList⟩] := by decide
    intro place
    rw [hplaces, hplaces']
    simp [or_comm]
  have hroot : ∀ content, (treeOf content).pathExists (.ofString "/cg") = .ok true := fun _ => rfl
  refine ⟨hplain, hstacked, (told _ _ hstacked).1, ?_, ?_⟩
  · rw [((told _ _ hplain).2 _ (hroot _) (readBytes_treeOf _)).1]
    decide
  · exact same _ _ _ _ hplain hstacked hsame _ _ (hroot _) (hroot _) (readBytes_treeOf _) (readBytes_treeOf _)

end Cgroup

end HostTables
