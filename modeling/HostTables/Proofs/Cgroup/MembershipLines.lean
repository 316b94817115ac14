/-
  HostTables.Proofs.Cgroup.MembershipLines — the lines of `self/cgroup`, and which of them is the process's own.

  A line is cut at its first two colons, so the membership it was written from is read back, whatever colons
  its path has (`ofText_eq_ok_iff`), and a line is refused when it has fewer than two (`ofText_eq_error_iff`).
  A file gives the memberships of its lines (`ofContent_eq_ok_iff`) or is refused for the first bad one
  (`ofContent_eq_error_iff`).

  In version 2 the own line is the first that reads `0::` (`IsUnified`), in version 1 the first whose key has
  the own controller between its commas (`IsMemory`): neither `00::` nor `memory_x` will do. The directory
  that is looked for on the host is the one that the path table outside of a container gives the same line.
  `memberships_read_and_selected` has all of it.
-/
import HostTables.Proofs.Cgroup.LegacyTable
import HostTables.Proofs.Cgroup.Resolution
import HostTables.Proofs.Cgroup.UnifiedTable

namespace HostTables.Membership

/-! ## Lines -/

/-- The line of the membership. -/
def line (m : Membership) : Text := m.hierarchy ++ ':' :: (m.controllers ++ ':' :: m.path)

/-- The first two fields have no colon, so the first two colons of the line are those between the fields. -/
def Separate (m : Membership) : Prop := ':' ∉ m.hierarchy ∧ ':' ∉ m.controllers

/-- The membership can be written on a line. -/
structure Plain (m : Membership) : Prop where
  separate : m.Separate
  hierarchy : '\n' ∉ m.hierarchy
  controllers : '\n' ∉ m.controllers
  path : '\n' ∉ m.path

instance (m : Membership) : Decidable m.Separate := inferInstanceAs (Decidable (_ ∧ _))

variable {n : Nat} {t content : Text} {m : Membership} {ms : List Membership} {e : ParseError}

theorem ofText_eq_ok_iff : ofText n t = .ok m ↔ t = m.line ∧ m.Separate := by
  obtain ⟨hierarchy, controllers, path⟩ := m
  constructor
  · intro h
    unfold ofText at h
    split at h
    · cases h
    · rename_i rest hfirst
      split at h
      · cases h
      · rename_i hsecond
        cases h
        obtain ⟨rfl, hhierarchy⟩ := Text.splitOnce?_eq_some_iff.mp hfirst
        obtain ⟨rfl, hcontrollers⟩ := Text.splitOnce?_eq_some_iff.mp hsecond
        exact ⟨rfl, hhierarchy, hcontrollers⟩
  · rintro ⟨rfl, hhierarchy, hcontrollers⟩
    have hfirst : Text.splitOnce? ':' (line ⟨hierarchy, controllers, path⟩) =
        some (hierarchy, controllers ++ ':' :: path) := Text.splitOnce?_eq_some_iff.mpr ⟨rfl, hhierarchy⟩
    have hsecond : Text.splitOnce? ':' (controllers ++ ':' :: path) = some (controllers, path) :=
      Text.splitOnce?_eq_some_iff.mpr ⟨rfl, hcontrollers⟩
    simp only [ofText, hfirst, hsecond]

theorem count_line (h : m.Separate) : m.line.count ':' = m.path.count ':' + 2 := by
  simp [line, List.count_append, List.count_eq_zero.mpr h.1, List.count_eq_zero.mpr h.2]

/-- With fewer than two colons one of the two cuts fails, and with two neither does. -/
theorem ofText_eq_error_iff : ofText n t = .error e ↔ t.count ':' < 2 ∧ e = .missingDelimiter n ':' := by
  constructor
  · intro h
    unfold ofText at h
    split at h
    · rename_i hfirst
      cases h
      rw [List.count_eq_zero.mpr (Text.splitOnce?_eq_none_iff.mp hfirst)]
      exact ⟨by omega, rfl⟩
    · rename_i hierarchy rest hfirst
      split at h
      · rename_i hsecond
        cases h
        obtain ⟨rfl, hhierarchy⟩ := Text.splitOnce?_eq_some_iff.mp hfirst
        have hrest : rest.count ':' = 0 := List.count_eq_zero.mpr (Text.splitOnce?_eq_none_iff.mp hsecond)
        exact ⟨by simp [List.count_eq_zero.mpr hhierarchy, hrest], rfl⟩
      · cases h
  · rintro ⟨hcount, rfl⟩
    cases hread : ofText n t with
    | ok m =>
      obtain ⟨rfl, hseparate⟩ := ofText_eq_ok_iff.mp hread
      rw [count_line hseparate] at hcount
      omega
    | error cause =>
      unfold ofText at hread
      split at hread
      · exact hread.symm
      · split at hread
        · exact hread.symm
        · cases hread

theorem exists_ofText_iff : (∃ m, ofText n t = .ok m) ↔ ¬ t.count ':' < 2 := by
  cases hread : ofText n t with
  | ok m =>
    have hnone : ofText n t ≠ .error (.missingDelimiter n ':') := by simp [hread]
    simpa [ofText_eq_error_iff] using hnone
  | error e => simpa using (ofText_eq_error_iff.mp hread).1

/-! ## Files -/

theorem forall₂_line_iff {lines : List Text} : List.Forall₂ (fun t m => t = m.line ∧ m.Separate) lines ms ↔
    lines = ms.map line ∧ ∀ m ∈ ms, m.Separate := by
  constructor
  · intro h
    induction h with
    | nil => exact ⟨rfl, nofun⟩
    | cons hline _ ih => exact ⟨congrArg₂ List.cons hline.1 ih.1, List.forall_mem_cons.mpr ⟨hline.2, ih.2⟩⟩
  · rintro ⟨rfl, hseparate⟩
    rw [List.forall₂_map_left_iff, List.forall₂_same]
    exact fun m hm => ⟨rfl, hseparate m hm⟩

theorem ofContent_eq_ok_iff : ofContent content = .ok ms ↔ Text.lines content = ms.map line ∧ ∀ m ∈ ms, m.Separate := by
  rw [← forall₂_line_iff]
  constructor
  · intro h
    exact (Format.forall₂_of_eachNumbered h).imp fun _ _ ⟨_, hread⟩ => ofText_eq_ok_iff.mp hread
  · intro h
    exact Format.eachNumbered_eq_ok (h.imp fun _ _ hline _ => ofText_eq_ok_iff.mpr hline)

/-- However the lines are kept apart, the memberships come back. -/
theorem ofContent_of_spread (hplain : ∀ m ∈ ms, m.Plain) (h : Text.Spread '\n' (ms.map line) content) :
    ofContent content = .ok ms :=
  ofContent_eq_ok_iff.mpr ⟨Text.fields_of_spread h, fun m hm => (hplain m hm).separate⟩

/-- The number is the position of the line among those that are not empty. -/
theorem ofContent_eq_error_iff : ofContent content = .error e ↔
    ∃ k t, First (·.count ':' < 2) (Text.lines content) k t ∧ e = .missingDelimiter (k + 1) ':' := by
  unfold ofContent
  rw [Format.eachNumbered_eq_error_iff_at]
  simp only [ofText_eq_error_iff, exists_ofText_iff, Nat.add_comm 1]
  constructor
  · rintro ⟨k, t, ht, ⟨hcount, he⟩, hbefore⟩
    exact ⟨k, t, ⟨ht, hcount, hbefore⟩, he⟩
  · rintro ⟨k, t, ⟨ht, hcount, hbefore⟩, he⟩
    exact ⟨k, t, ht, ⟨hcount, he⟩, hbefore⟩

/-- A mode is detected and the file is read, but one of its lines is bad. -/
theorem survey_of_badLine {files : FileTree} {procRoot root : Path} {mode : CgroupMode}
    (hmode : Cgroup.detectMode files (procRoot.join Cgroup.mountTableFile) root = .ok mode) (hne : mode ≠ .hybrid)
    (hread : files.readText (procRoot.join Cgroup.membershipFile) = .ok content) (h : ofContent content = .error e) :
    Cgroup.survey files procRoot root = .error (.parse (procRoot.join Cgroup.membershipFile) e) := by
  simp only [Cgroup.survey, hmode, ok_bind, if_neg hne, hread, h]

/-! ## The own line -/

/-- What a list of controllers is called by: what is behind its first `=`, or all of it without one. -/
inductive Called (controllers key : Text) : Prop
  | named {before : Text} : controllers = before ++ '=' :: key → '=' ∉ before → Called controllers key
  | plain : '=' ∉ controllers → key = controllers → Called controllers key

theorem called_iff {key : Text} : Called m.controllers key ↔ key = m.key := by
  rw [Membership.key]
  constructor
  · intro h
    cases h with
    | named hcut hbefore => rw [Text.splitOnce?_eq_some_iff.mpr ⟨hcut, hbefore⟩]
    | plain hnone hkey => rw [Text.splitOnce?_of_not_mem hnone, hkey]
  · rintro rfl
    split
    · rename_i hcut
      obtain ⟨hcut, hbefore⟩ := Text.splitOnce?_eq_some_iff.mp hcut
      exact .named hcut hbefore
    · rename_i hnone
      exact .plain (Text.splitOnce?_eq_none_iff.mp hnone) rfl

/-- The components of a text, with commas between them. -/
structure Components (t : Text) (parts : List Text) : Prop where
  joined : t = Text.joined [','] parts
  nonempty : parts ≠ []
  apart : ∀ part ∈ parts, ',' ∉ part

theorem components_iff {parts : List Text} : Components t parts ↔ parts = t.splitOn ',' := by
  constructor
  · rintro ⟨rfl, hne, hapart⟩
    exact (List.splitOn_intercalate ',' hapart hne).symm
  · rintro rfl
    exact ⟨(List.intercalate_splitOn ',').symm, List.splitOn_ne_nil _ _, fun _ => Text.not_mem_of_mem_splitOn⟩

/-- The line of version 2. -/
def IsUnified (m : Membership) : Prop := m.hierarchy = "0".toList ∧ m.controllers = []

/-- The memory controller is one of the components of what the line is called by. -/
def IsMemory (m : Membership) : Prop :=
  ∃ key parts, Called m.controllers key ∧ Components key parts ∧ "memory".toList ∈ parts

theorem isUnified_iff : m.isUnified = true ↔ m.IsUnified := by
  simp [isUnified, IsUnified]

theorem isLegacyOwn_iff_isMemory : m.isLegacyOwn = true ↔ m.IsMemory := by
  simp only [IsMemory, called_iff, components_iff, exists_and_left, exists_eq_left, isLegacyOwn, List.contains_iff_mem]
  rfl

theorem unified?_eq_some : unified? ms = some m ↔ IsFirst IsUnified ms m :=
  find?_eq_some_iff_isFirst fun _ => isUnified_iff

theorem legacyOwn?_eq_some : legacyOwn? ms = some m ↔ IsFirst IsMemory ms m :=
  find?_eq_some_iff_isFirst fun _ => isLegacyOwn_iff_isMemory

theorem unified?_eq_none : unified? ms = none ↔ ∀ m ∈ ms, ¬ m.IsUnified :=
  find?_eq_none_iff_forall fun _ => isUnified_iff

theorem legacyOwn?_eq_none : legacyOwn? ms = none ↔ ∀ m ∈ ms, ¬ m.IsMemory :=
  find?_eq_none_iff_forall fun _ => isLegacyOwn_iff_isMemory

/-! ## The own directory -/

variable {root : Path}

theorem ownDirectory?_unified (h : IsFirst IsUnified ms m) :
    Cgroup.ownDirectory? root .unified ms = some (Cgroup.directoryUnder root m.path) := by
  rw [Cgroup.ownDirectory?, unified?_eq_some.mpr h]
  rfl

/-- Outside of a container the table of the own line has the own directory under all its names. -/
theorem ofUnified_ownDirectory? {files : FileTree} {table : PathTable} (h : IsFirst IsUnified ms m)
    (htable : PathTable.ofUnified files root m.path false = .ok table) :
    table.get? [] = Cgroup.ownDirectory? root .unified ms ∧
      ∀ entry ∈ table.entries, Cgroup.ownDirectory? root .unified ms = some entry.2 := by
  obtain ⟨hentries, hdefault⟩ := PathTable.ofUnified_spec htable
  rw [ownDirectory?_unified h]
  exact ⟨hdefault, fun entry he => congrArg some (hentries entry he).symm⟩

theorem ownDirectory?_legacy (h : IsFirst IsMemory ms m) :
    Cgroup.ownDirectory? root .legacy ms = some (Cgroup.legacyDirectory root false m) := by
  rw [Cgroup.ownDirectory?, legacyOwn?_eq_some.mpr h]
  rfl

/-- Outside of a container the own directory is the one that the table has for the own controller. -/
theorem ofLegacy_ownDirectory? (root : Path) (ms : List Membership) :
    (PathTable.ofLegacy root ms false).get? ownController = Cgroup.ownDirectory? root .legacy ms := by
  have hsame : PathTable.listing? ms ownController = legacyOwn? ms := by
    refine Option.ext fun m => ?_
    rw [PathTable.listing?_eq_some_iff, PathTable.legacyOwn?_eq_some_iff]
  rw [PathTable.get?_ofLegacy (by decide) (by decide), hsame]
  rfl

/-- Lines are read as what they were written from, and refused, when the file is read for the survey too, for the
    first that has fewer than two colons. The own line is the first `0::`, or the first with the memory controller;
    without such a line there is none. Its directory is the one that the path table outside of a container has for
    it: the path below the root, or below the mount of what the line is called by. -/
theorem memberships_read_and_selected :
    (∀ ms content, (∀ m ∈ ms, m.Plain) → Text.Spread '\n' (ms.map line) content → ofContent content = .ok ms) ∧
    (∀ content e, ofContent content = .error e ↔
      ∃ k t, First (·.count ':' < 2) (Text.lines content) k t ∧ e = .missingDelimiter (k + 1) ':') ∧
    (∀ (files : FileTree) (procRoot root : Path) (mode : CgroupMode) (content : Text) (k : Nat) (t : Text),
      Cgroup.detectMode files (procRoot.join Cgroup.mountTableFile) root = .ok mode → mode ≠ .hybrid →
      files.readText (procRoot.join Cgroup.membershipFile) = .ok content →
      First (·.count ':' < 2) (Text.lines content) k t →
      Cgroup.survey files procRoot root =
        .error (.parse (procRoot.join Cgroup.membershipFile) (.missingDelimiter (k + 1) ':'))) ∧
    (∀ ms m, (unified? ms = some m ↔ IsFirst IsUnified ms m) ∧ (legacyOwn? ms = some m ↔ IsFirst IsMemory ms m)) ∧
    (∀ ms, (unified? ms = none ↔ ∀ m ∈ ms, ¬ m.IsUnified) ∧ (legacyOwn? ms = none ↔ ∀ m ∈ ms, ¬ m.IsMemory)) ∧
    (∀ root ms m, IsFirst IsUnified ms m →
      Cgroup.ownDirectory? root .unified ms = some (Cgroup.directoryUnder root m.path) ∧
      ∀ files table, PathTable.ofUnified files root m.path false = .ok table →
        table.get? [] = Cgroup.ownDirectory? root .unified ms ∧
        ∀ entry ∈ table.entries, Cgroup.ownDirectory? root .unified ms = some entry.2) ∧
    (∀ root ms m key, IsFirst IsMemory ms m → Called m.controllers key →
      Cgroup.ownDirectory? root .legacy ms = some (Cgroup.directoryUnder (root.join key) m.path) ∧
      Cgroup.ownDirectory? root .legacy ms = some (Cgroup.legacyDirectory root false m) ∧
      (PathTable.ofLegacy root ms false).get? "memory".toList = Cgroup.ownDirectory? root .legacy ms) ∧
    ∀ root ms, (Cgroup.ownDirectory? root .unified ms = none ↔ ∀ m ∈ ms, ¬ m.IsUnified) ∧
      (Cgroup.ownDirectory? root .legacy ms = none ↔ ∀ m ∈ ms, ¬ m.IsMemory) := by
  refine ⟨fun ms content => ofContent_of_spread, fun content e => ofContent_eq_error_iff, ?_, ?_, ?_, ?_, ?_, ?_⟩
  · intro files procRoot root mode content k t hmode hne hread hfirst
    exact survey_of_badLine hmode hne hread (ofContent_eq_error_iff.mpr ⟨k, t, hfirst, rfl⟩)
  · exact fun ms m => ⟨unified?_eq_some, legacyOwn?_eq_some⟩
  · exact fun ms => ⟨unified?_eq_none, legacyOwn?_eq_none⟩
  · exact fun root ms m h => ⟨ownDirectory?_unified h, fun files table => ofUnified_ownDirectory? h⟩
  · intro root ms m key h hkey
    have hown : Cgroup.ownDirectory? root .legacy ms = some (Cgroup.legacyDirectory root false m) :=
      ownDirectory?_legacy h
    refine ⟨?_, hown, ofLegacy_ownDirectory? root ms⟩
    rw [hown, called_iff.mp hkey]
    rfl
  · intro root ms
    simp only [Cgroup.ownDirectory?, Option.map_eq_none_iff, unified?_eq_none, legacyOwn?_eq_none, and_self]

/-- A hierarchy with a name, near misses in front of the own lines, and others that would do behind them. -/
def crowdedLines : List Membership :=
  [⟨"1".toList, "name=systemd".toList, "/init".toList⟩, ⟨"10".toList, "memory_x".toList, "/a".toList⟩,
   ⟨"00".toList, [], "/c".toList⟩, ⟨"4".toList, "cpu,memory".toList, "/docker/a:b:c".toList⟩,
   ⟨"0".toList, [], "/svc:1".toList⟩, ⟨"9".toList, "memory".toList, "/z".toList⟩, ⟨"0".toList, [], "/late".toList⟩]

/-- The same with empty lines between. -/
def crowdedContent : Text :=
  ("1:name=systemd:/init\n\n\n10:memory_x:/a\n00::/c\n4:cpu,memory:/docker/a:b:c\n" ++
    "\n0::/svc:1\n9:memory:/z\n0::/late\n").toList

theorem crowded_lines_selected :
    ofContent crowdedContent = .ok crowdedLines ∧
    unified? crowdedLines = some ⟨"0".toList, [], "/svc:1".toList⟩ ∧
    Cgroup.ownDirectory? PathTable.standardRoot .unified crowdedLines = some (.ofString "/sys/fs/cgroup/svc:1") ∧
    legacyOwn? crowdedLines = some ⟨"4".toList, "cpu,memory".toList, "/docker/a:b:c".toList⟩ ∧
    Cgroup.ownDirectory? PathTable.standardRoot .legacy crowdedLines =
      some (.ofString "/sys/fs/cgroup/cpu,memory/docker/a:b:c") ∧
    ofContent "0::/a\n\n4:memory\nx".toList = .error (.missingDelimiter 2 ':') := by
  obtain ⟨written, refused, -, selected, -, unified, legacy, -⟩ := memberships_read_and_selected
  have hplain : ∀ m ∈ crowdedLines, m.Plain := by
    have hall : ∀ m ∈ crowdedLines, m.Separate ∧ '\n' ∉ m.hierarchy ∧ '\n' ∉ m.controllers ∧ '\n' ∉ m.path := by decide
    exact fun m hm => ⟨(hall m hm).1, (hall m hm).2.1, (hall m hm).2.2.1, (hall m hm).2.2.2⟩
  have hspread : Text.Spread '\n' (crowdedLines.map line) crowdedContent := Text.spread_fields crowdedContent
  have hunified : IsFirst IsUnified crowdedLines ⟨"0".toList, [], "/svc:1".toList⟩ :=
    unified?_eq_some.mp rfl
  have hlegacy : IsFirst IsMemory crowdedLines ⟨"4".toList, "cpu,memory".toList, "/docker/a:b:c".toList⟩ :=
    legacyOwn?_eq_some.mp (by decide)
  refine ⟨written _ _ hplain hspread, (selected _ _).1.mpr hunified, ?_, (selected _ _).2.mpr hlegacy, ?_, ?_⟩
  · exact (unified _ _ _ hunified).1
  · exact (legacy _ _ _ _ hlegacy (.plain (by decide) rfl)).1
  · refine (refused _ _).mpr ⟨1, "4:memory".toList, ⟨rfl, by decide, ?_⟩, rfl⟩
    intro j hj earlier hearlier
    obtain rfl : j = 0 := by omega
    cases hearlier
    decide

end HostTables.Membership
