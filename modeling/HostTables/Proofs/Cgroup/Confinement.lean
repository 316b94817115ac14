/-
  HostTables.Proofs.Cgroup.Confinement — when the directories of a path table lie under the root.

  A line of `self/cgroup` puts its key and its path behind the root as they are written, so
  where its directory lies is decided by the route they take (`legacyRoute`, `unifiedRoute`):
  a key that begins with a slash replaces the root, and `..` in either climbs out of it.
  `directories_under_root_iff` is the exact condition: all directories of a table lie under the
  root iff the route of every line that is first to list some name stays under it. Lines
  without `..` and without absolute keys always do (`plain_directories_under_root`).

  Confinement for every accepted file fails: `directories_outside_root` has a line that leaves
  the root by its path, one by its key, one by an absolute key and one of version 2.
-/
import HostTables.Proofs.Cgroup.PathTable
import HostTables.Proofs.Path.Lexical

namespace HostTables

namespace Cgroup

/-- What a version 1 line adds to the root: its key, and its path unless only the mount is visible. -/
def legacyRoute (containerized : Bool) (m : Membership) : Route :=
  .of (Path.components ⟨m.key⟩ ++ if containerized then [] else Path.segments m.path)

/-- What the version 2 line adds to the root. -/
def unifiedRoute (containerized : Bool) (path : Text) : Route :=
  .of (if containerized then [] else Path.segments path)

/-! ## Where one directory lies -/

theorem isAbsolute_directoryUnder {base : Path} (hb : base.isAbsolute = true) (path : Text) :
    (directoryUnder base path).isAbsolute = true := by
  unfold directoryUnder
  split
  · exact hb
  · exact Path.isAbsolute_join hb

/-- A cgroup path goes on from its base, slashes in front of it or not. -/
theorem lexical_directoryUnder {base : Path} (hb : base.isAbsolute = true) (path : Text) :
    (directoryUnder base path).lexical = (Path.segments path).foldl Location.follow base.lexical := by
  rw [← Path.segments_dropWhile path]
  unfold directoryUnder
  cases hd : path.dropWhile (· == '/') with
  | nil => rfl
  | cons c rest =>
    have hrel : (c :: rest).head? ≠ some '/' := hd ▸ Path.head?_dropWhile_slash path
    dsimp only
    rw [Path.lexical_join hb]
    rcases Path.components_of_relative hrel with h | h
    · rw [h]
    · rw [h]; rfl

theorem isAbsolute_legacyDirectory {root : Path} (hr : root.isAbsolute = true) (containerized : Bool)
    (m : Membership) : (legacyDirectory root containerized m).isAbsolute = true := by
  unfold legacyDirectory
  split
  · exact Path.isAbsolute_join hr
  · exact isAbsolute_directoryUnder (Path.isAbsolute_join hr) m.path

theorem lexical_legacyDirectory {root : Path} (hr : root.isAbsolute = true) (containerized : Bool)
    (m : Membership) :
    (legacyDirectory root containerized m).lexical = (legacyRoute containerized m).arrive root.lexical := by
  unfold legacyRoute
  rw [← Route.foldl_follow, List.foldl_append, ← Path.lexical_join hr]
  cases containerized with
  | true => rfl
  | false => exact lexical_directoryUnder (Path.isAbsolute_join hr) m.path

theorem legacyDirectory_under_iff {root : Path} (hr : root.isAbsolute = true) (containerized : Bool)
    (m : Membership) :
    (legacyDirectory root containerized m).Under root ↔ (legacyRoute containerized m).StaysUnder root.lexical := by
  rw [Path.Under, lexical_legacyDirectory hr, Route.under_arrive]
  exact and_iff_right (isAbsolute_legacyDirectory hr containerized m)

theorem unifiedDirectory_under_iff {root : Path} (hr : root.isAbsolute = true) (containerized : Bool)
    (path : Text) :
    (PathTable.unifiedDirectory root path containerized).Under root ↔
      (unifiedRoute containerized path).StaysUnder root.lexical := by
  unfold unifiedRoute
  rw [Path.Under, ← Route.under_arrive, ← Route.foldl_follow]
  cases containerized with
  | true => exact and_iff_right hr
  | false =>
    rw [show PathTable.unifiedDirectory root path false = directoryUnder root path from rfl,
      lexical_directoryUnder hr]
    exact and_iff_right (isAbsolute_directoryUnder hr path)

end Cgroup

/-! ## Tables -/

namespace PathTable

open Cgroup (legacyDirectory legacyRoute unifiedRoute)

/-- The directories of a version 1 table are those of the lines that are first to list a name. -/
theorem directory_ofLegacy_iff (root : Path) (ms : List Membership) (containerized : Bool) (path : Path) :
    (∃ name, (name, path) ∈ (ofLegacy root ms containerized).entries) ↔
      ∃ name m, listing? ms name = some m ∧ legacyDirectory root containerized m = path := by
  simp only [mem_entries_iff (ofLegacy_distinct root ms containerized), entry?_ofLegacy, Option.map_eq_some_iff]
  constructor
  · rintro ⟨name, m, hm, rfl⟩
    rcases Option.or_eq_some_iff.mp hm with h | ⟨-, h⟩
    · exact ⟨name, m, h, rfl⟩
    · split at h
      · obtain ⟨first, hf⟩ := listing?_of_default h
        exact ⟨first, m, hf, rfl⟩
      · cases h
  · rintro ⟨name, m, hm, rfl⟩
    exact ⟨name, m, by rw [hm, Option.some_or], rfl⟩

/-- A version 2 table has one directory, for at least the default name. -/
theorem directory_ofUnified_iff {files : FileTree} {root : Path} {path : Text} {containerized : Bool}
    {table : PathTable} (h : ofUnified files root path containerized = .ok table) (directory : Path) :
    (∃ name, (name, directory) ∈ table.entries) ↔ directory = unifiedDirectory root path containerized := by
  simp only [ofUnified] at h
  split at h
  · cases h
  · split at h
    · cases h
    · rename_i controllers _
      cases h
      have hd : Distinct (empty.insertAll (controllers ++ [defaultName]) (unifiedDirectory root path containerized)) :=
        insertAll_distinct List.nodup_nil
      simp only [mem_entries_iff hd, entry?_insertAll]
      constructor
      · rintro ⟨name, hn⟩
        have hn : name ∈ controllers ++ [defaultName] ∧ unifiedDirectory root path containerized = directory := by
          simpa [empty, PathTable.entry?] using hn
        exact hn.2.symm
      · rintro rfl
        exact ⟨defaultName, by simp [empty, PathTable.entry?]⟩

/-- All directories of a version 1 table lie under the root exactly when the route of every line
    that is first to list some name stays under it; that of a version 2 table exactly when the
    route of its path does. -/
theorem directories_under_root_iff {root : Path} (hr : root.isAbsolute = true) (containerized : Bool) :
    (∀ ms, (∀ entry ∈ (ofLegacy root ms containerized).entries, entry.2.Under root) ↔
      ∀ name m, listing? ms name = some m → (legacyRoute containerized m).StaysUnder root.lexical) ∧
    ∀ files path table, ofUnified files root path containerized = .ok table →
      ((∀ entry ∈ table.entries, entry.2.Under root) ↔
        (unifiedRoute containerized path).StaysUnder root.lexical) := by
  have hentries : ∀ table : PathTable, (∀ entry ∈ table.entries, entry.2.Under root) ↔
      ∀ path, (∃ name, (name, path) ∈ table.entries) → path.Under root :=
    fun table => ⟨fun h path ⟨name, hm⟩ => h (name, path) hm, fun h entry hm => h entry.2 ⟨entry.1, hm⟩⟩
  refine ⟨fun ms => ?_, fun files path table ht => ?_⟩
  · rw [hentries]
    simp only [directory_ofLegacy_iff]
    constructor
    · intro h name m hm
      exact (Cgroup.legacyDirectory_under_iff hr containerized m).mp (h _ ⟨name, m, hm, rfl⟩)
    · rintro h path ⟨name, m, hm, rfl⟩
      exact (Cgroup.legacyDirectory_under_iff hr containerized m).mpr (h name m hm)
  · rw [hentries]
    simp only [directory_ofUnified_iff ht, forall_eq]
    exact Cgroup.unifiedDirectory_under_iff hr containerized path

/-- Without `..` and without a key that begins with a slash, no directory leaves the root. -/
theorem plain_directories_under_root {root : Path} (hr : root.isAbsolute = true) (containerized : Bool)
    {ms : List Membership}
    (hkey : ∀ m ∈ ms, Component.root ∉ Path.components ⟨m.key⟩ ∧ Component.parent ∉ Path.components ⟨m.key⟩)
    (hpath : ∀ m ∈ ms, Component.parent ∉ Path.segments m.path) :
    ∀ entry ∈ (ofLegacy root ms containerized).entries, entry.2.Under root := by
  intro entry he
  obtain ⟨name, m, hm, hdir⟩ := (directory_ofLegacy_iff root ms containerized entry.2).mp ⟨entry.1, he⟩
  have hmem : m ∈ ms := (List.mem_filter.mp (List.mem_of_find?_eq_some hm)).1
  have hroot : Component.root ∉ Path.segments m.path := Path.root_not_mem_segments m.path
  rw [← hdir, Cgroup.legacyDirectory_under_iff hr]
  apply Route.staysUnder_of_no_parent
  · cases containerized <;> simp [hkey m hmem, hpath m hmem]
  · cases containerized <;> simp [hkey m hmem, hroot]

/-! ## A root and lines that leave it -/

def standardRoot : Path := .ofString "/sys/fs/cgroup"

def climbingLine : Membership := ⟨"4".toList, "memory".toList, "/../../x".toList⟩

/-- It climbs out of the root too, and comes down again by the root's own names. -/
def returningLine : Membership := ⟨"4".toList, "memory".toList, "/../../cgroup/memory/a".toList⟩

def parentNameLine : Membership := ⟨"1".toList, "name=..".toList, "/".toList⟩

def absoluteNameLine : Membership := ⟨"1".toList, "name=/etc".toList, "/".toList⟩

theorem returning_directory_under_root :
    standardRoot.isAbsolute = true ∧
    ∀ entry ∈ (ofLegacy standardRoot [returningLine] false).entries, entry.2.Under standardRoot := by
  refine ⟨by decide, ((directories_under_root_iff (by decide) false).1 _).mpr fun name m hm => ?_⟩
  have honly : m = returningLine :=
    List.mem_singleton.mp (List.mem_filter.mp (List.mem_of_find?_eq_some hm)).1
  rw [honly]
  decide

/-- Accepted lines whose directories do not lie under the root: by `..` in the path, by `..` in the
    key, by an absolute key, and by `..` in the path of version 2. -/
theorem directories_outside_root :
    (standardRoot.isAbsolute = true ∧ Component.parent ∉ standardRoot.components) ∧
    (Membership.ofContent "4:memory:/../../x\n".toList = .ok [climbingLine] ∧
      (defaultName, .ofString "/sys/fs/cgroup/memory/../../x") ∈ (ofLegacy standardRoot [climbingLine] false).entries ∧
      ¬ (Path.ofString "/sys/fs/cgroup/memory/../../x").Under standardRoot) ∧
    (Membership.ofContent "1:name=..:/\n".toList = .ok [parentNameLine] ∧
      (defaultName, .ofString "/sys/fs/cgroup/..") ∈ (ofLegacy standardRoot [parentNameLine] true).entries ∧
      ¬ (Path.ofString "/sys/fs/cgroup/..").Under standardRoot) ∧
    (Membership.ofContent "1:name=/etc:/\n".toList = .ok [absoluteNameLine] ∧
      (defaultName, .ofString "/etc") ∈ (ofLegacy standardRoot [absoluteNameLine] true).entries ∧
      ¬ (Path.ofString "/etc").Under standardRoot) ∧
    (Membership.ofContent "0::/../x\n".toList = .ok [⟨"0".toList, [], "/../x".toList⟩] ∧
      ¬ (unifiedDirectory standardRoot "/../x".toList false).Under standardRoot) :=
  ⟨by decide, ⟨rfl, by decide, by decide⟩, ⟨rfl, by decide, by decide⟩, ⟨rfl, by decide, by decide⟩, rfl, by decide⟩

end PathTable

end HostTables
