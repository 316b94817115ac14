/-
  HostTables.Proofs.Machine.Confined — a resolved name is read inside its directory.

  `resolveUnder` answers with the joined path and nothing else, exactly when the name passes its
  check and no two places are found that lie apart (`resolveUnder_eq_ok_iff`). Places that are
  not found leave no gap: when the file can be read both are found, so its location lies at or
  below that of the directory (`readText_under`). A name that leads elsewhere is refused
  (`resolveUnder_outside`), also where the directory itself is reached by links.
-/
import HostTables.Machine.Confined
import HostTables.Proofs.Machine.Walk
import HostTables.Proofs.Path.Filename

namespace HostTables

namespace FileTree

variable {tree : FileTree}

/-- The content is that of a file whose location lies at or below that of the directory. -/
def HoldsUnder (tree : FileTree) (directory : Path) (content : Text) : Prop :=
  ∃ base location bytes, tree.canonical directory = .ok base ∧ base <+: location ∧
    tree.entry? location = some (.file bytes) ∧ Utf8.decodeLossy bytes = content

theorem resolveUnder_eq_ok_iff {root path : Path} {name : Text} :
    tree.resolveUnder root name = .ok path ↔
      path = root.join name ∧ checkFilename name = .ok () ∧
        ∀ base location, tree.canonical root = .ok base → tree.canonical path = .ok location →
          base <+: location := by
  simp only [resolveUnder, bind_eq_ok]
  constructor
  · rintro ⟨⟨⟩, hc, h⟩
    split at h
    · rename_i base location hbase hlocation
      split at h
      · rename_i hp
        cases h
        refine ⟨rfl, hc, fun b l hb hl => ?_⟩
        rw [hbase] at hb
        rw [hlocation] at hl
        cases hb
        cases hl
        exact List.isPrefixOf_iff_prefix.mp hp
      · cases h
    · rename_i hnone
      cases h
      exact ⟨rfl, hc, fun b l hb hl => absurd hl (hnone b l hb)⟩
  · rintro ⟨rfl, hc, hunder⟩
    refine ⟨(), hc, ?_⟩
    split
    · rename_i base location hbase hlocation
      rw [if_pos (List.isPrefixOf_iff_prefix.mpr (hunder base location hbase hlocation))]
      rfl
    · rfl

/-- What is read at a resolved path is a file at the path's own location, and that lies at or below
    the location of the directory, which is found as well. -/
theorem readText_under {root path : Path} {name content : Text} (hroot : root.text ≠ [])
    (h : tree.resolveUnder root name = .ok path) (hread : tree.readText path = .ok content) :
    ∃ base location bytes, tree.canonical root = .ok base ∧ tree.canonical path = .ok location ∧
      base <+: location ∧ tree.entry? location = some (.file bytes) ∧ Utf8.decodeLossy bytes = content := by
  obtain ⟨rfl, hc, hunder⟩ := resolveUnder_eq_ok_iff.mp h
  obtain ⟨hne, hrel, -⟩ := checkFilename_eq_ok_iff.mp hc
  obtain ⟨location, bytes, hl, he, hb⟩ := readText_eq_ok_iff.mp hread
  have hlocation := canonical_of_locate hl
  obtain ⟨base, hbase⟩ := canonical_of_join hroot hne hrel hlocation
  exact ⟨base, location, bytes, hbase, hlocation, hunder base location hbase hlocation, he, hb⟩

theorem holdsUnder_of_read {root path : Path} {name content : Text} (hroot : root.text ≠ [])
    (h : tree.resolveUnder root name = .ok path) (hread : tree.readText path = .ok content) :
    tree.HoldsUnder root content := by
  obtain ⟨base, location, bytes, hbase, -, hp, he, hb⟩ := readText_under hroot h hread
  exact ⟨base, location, bytes, hbase, hp, he, hb⟩

/-- A name that leads to a place outside is refused, with both places in the report. -/
theorem resolveUnder_outside {root : Path} {name : Text} {location : Location} (hroot : root.text ≠ [])
    (hc : checkFilename name = .ok ()) (hl : tree.canonical (root.join name) = .ok location)
    (hout : ∀ base, tree.canonical root = .ok base → ¬ base <+: location) :
    ∃ base, tree.canonical root = .ok base ∧
      tree.resolveUnder root name = .error (.outsideRoot location.path base.path) := by
  obtain ⟨hne, hrel, -⟩ := checkFilename_eq_ok_iff.mp hc
  obtain ⟨base, hbase⟩ := canonical_of_join hroot hne hrel hl
  refine ⟨base, hbase, ?_⟩
  have hp : base.isPrefixOf location = false := by
    rw [Bool.eq_false_iff]
    exact fun h => hout base hbase (List.isPrefixOf_iff_prefix.mp h)
  simp only [resolveUnder, hc, hbase, hl, hp]
  rfl

end FileTree

end HostTables
