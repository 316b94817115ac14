/-
  HostTables.Proofs.Cgroup.IllFormedMounts — a mount table that is not all UTF-8.

  Other readers of the mount table put U+FFFD for what is ill-formed. Detection decodes every line by
  itself and refuses one that is not UTF-8. Repairing bytes changes no well-formed line and moves none,
  so where every line that is reached is well-formed detection sees the same mounts
  (`mountsOf_repair`). An ill-formed line that is reached is a failure to read (`mountOf?_illFormed`),
  which no text gives (`modeOfContent_encode_error`).
  - `repair_agrees_iff`: detection agrees with detection on the repaired table exactly when no line that
    it reaches is ill-formed, and fails to read the table otherwise.
  - `foreign_mount_point_fails`: the mount point of a disk, of no concern to the mode, is not UTF-8. The
    host is unified, and detection fails.
-/
import HostTables.Proofs.Cgroup.Mode
import HostTables.Proofs.Text.IllFormed

namespace HostTables.Cgroup

variable {origin root : Path}

/-- Where all lines that are reached are well-formed, repairing the lines changes nothing, not even the error
    at which reading stops. -/
theorem mountsOf_repair (origin : Path) {lines : List (List UInt8)}
    (h : ∀ line, Reached lines line → Utf8.WellFormed line) :
    mountsOf origin (lines.map Utf8.repair) = mountsOf origin lines := by
  induction lines with
  | nil => rfl
  | cons line rest ih =>
    have hline : Utf8.repair line = line := Utf8.repair_of_wellFormed (h line .here)
    obtain ⟨t, ht⟩ := h line .here
    by_cases hread : ReadableLine t
    · have hrest := ih fun l hl => h l (.behind ht hread hl)
      rw [List.map_cons, hline, mountsOf, mountsOf, hrest]
    · -- What stands behind a line that cannot be read is not looked at.
      obtain ⟨-, cause, -, herror⟩ := mountOf?_eq_error origin hread
      rw [ht] at herror
      rw [List.map_cons, hline, mountsOf_of_reached .here herror, mountsOf_of_reached .here herror]

theorem mountOf?_illFormed (origin : Path) {line : List UInt8} (h : ¬ Utf8.WellFormed line) :
    mountOf? origin line = .error (.readLine origin .notUtf8) := by
  unfold mountOf?
  cases hdecode : Utf8.decode? line with
  | error _ => rfl
  | ok t => exact absurd ⟨t, Utf8.decode?_eq_ok_iff.mp hdecode⟩ h

/-- A table that is text can be read: what may go wrong is a line, or that no cgroup is mounted. -/
theorem modeOfContent_encode_error {table : Text} {e : CgroupError}
    (h : modeOfContent origin root (Utf8.encode table) = .error e) :
    e = .noCgroupMount root origin ∨ ∃ cause, e = .mountLine origin cause := by
  by_cases hr : Readable (tableLines table)
  · rw [modeOfContent_of_readable origin root hr] at h
    split at h
    · cases h
    · cases h
      exact Or.inl rfl
  · obtain ⟨_, _, _, cause, -, -, -, -, hmode⟩ := modeOfContent_of_bad origin root hr
    rw [hmode] at h
    cases h
    exact Or.inr ⟨cause, rfl⟩

/-- Detection gives what it gives on the repaired table exactly when no line that it reaches is ill-formed.
    Otherwise it fails to read the table, whatever is mounted. -/
theorem repair_agrees_iff {files files' : FileTree} {content : List UInt8} (hroot : files.pathExists root = .ok true)
    (hroot' : files'.pathExists root = .ok true) (hread : files.readBytes origin = .ok content)
    (hread' : files'.readBytes origin = .ok (Utf8.repair content)) :
    (detectMode files origin root = detectMode files' origin root ↔
      ∀ line, Reached (content.splitOn lineFeed) line → Utf8.WellFormed line) ∧
    (detectMode files origin root ≠ detectMode files' origin root →
      detectMode files origin root = .error (.readLine origin .notUtf8)) := by
  rw [detectMode_of_content hroot hread, detectMode_of_content hroot' hread']
  have hlines : (Utf8.repair content).splitOn lineFeed = (content.splitOn lineFeed).map Utf8.repair :=
    Utf8.splitOn_repair content
  by_cases h : ∀ line, Reached (content.splitOn lineFeed) line → Utf8.WellFormed line
  · have hsame : modeOfContent origin root content = modeOfContent origin root (Utf8.repair content) := by
      rw [modeOfContent, modeOfContent, hlines, mountsOf_repair origin h]
    exact ⟨iff_of_true hsame h, fun hne => absurd hsame hne⟩
  · obtain ⟨line, hreached, hill⟩ : ∃ line, Reached (content.splitOn lineFeed) line ∧ ¬ Utf8.WellFormed line := by
      simpa using h
    have hfails : modeOfContent origin root content = .error (.readLine origin .notUtf8) :=
      bind_eq_error.mpr (Or.inl (mountsOf_of_reached hreached (mountOf?_illFormed origin hill)))
    have hne : modeOfContent origin root content ≠ modeOfContent origin root (Utf8.repair content) := by
      intro hsame
      rw [hfails] at hsame
      rcases modeOfContent_encode_error hsame.symm with hnone | ⟨cause, hcause⟩
      · cases hnone
      · cases hcause
    exact ⟨iff_of_false hne h, fun _ => hfails⟩

/-- A disk mounted at `/mnt/` and a byte that is not UTF-8. -/
def foreignLine : List UInt8 :=
  Utf8.encode "50 35 0:40 / /mnt/".toList ++ 0xFF :: Utf8.encode " rw - ext4 /dev/sda rw\n".toList

/-- The line before it cannot be read, so detection does not come to the disk. -/
def tornForeignTable : List UInt8 := Utf8.encode "42 35 0:39\n".toList ++ foreignLine

theorem torn_line_before_foreign_mount :
    ¬ Utf8.WellFormed tornForeignTable ∧
    detectMode (treeOf tornForeignTable) (.ofString "/mountinfo") (.ofString "/") =
      detectMode (treeOf (Utf8.repair tornForeignTable)) (.ofString "/mountinfo") (.ofString "/") := by
  have hlines : tornForeignTable.splitOn lineFeed =
      Utf8.encode "42 35 0:39".toList :: foreignLine.splitOn lineFeed := by decide +kernel
  refine ⟨by decide +kernel, ?_⟩
  refine (repair_agrees_iff rfl rfl (readBytes_treeOf _) (readBytes_treeOf _)).1.mpr ?_
  rw [hlines]
  intro line hreached
  cases hreached with
  | here => exact ⟨_, rfl⟩
  | @behind t _ _ _ hencode hread _ =>
    have ht : t = "42 35 0:39".toList := by rw [← Utf8.decodeLossy_encode t, hencode, Utf8.decodeLossy_encode]
    rw [ht] at hread
    exact absurd hread (by decide)

/-- Version 2 at the root, and the disk. -/
def unifiedForeignTable : List UInt8 := Utf8.encode "42 35 0:39 / / rw - cgroup2 cgroup2 rw\n".toList ++ foreignLine

theorem foreign_mount_point_fails :
    (treeOf unifiedForeignTable).pathExists (.ofString "/") = .ok true ∧
    (treeOf unifiedForeignTable).readBytes (.ofString "/mountinfo") = .ok unifiedForeignTable ∧
    detectMode (treeOf unifiedForeignTable) (.ofString "/mountinfo") (.ofString "/") =
      .error (.readLine (.ofString "/mountinfo") .notUtf8) ∧
    detectMode (treeOf (Utf8.repair unifiedForeignTable)) (.ofString "/mountinfo") (.ofString "/") = .ok .unified := by
  refine ⟨rfl, readBytes_treeOf _, ?_, ?_⟩
  · decide +kernel
  · decide +kernel

end HostTables.Cgroup
