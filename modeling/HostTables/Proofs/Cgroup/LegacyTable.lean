/-
  HostTables.Proofs.Cgroup.LegacyTable — what a version 1 table answers, and for whom its default entry is.

  A line with a key lists that key and, where it is combined, its parts (`Membership.Lists`). Any name
  but that of the default entry has the directory of the first line that lists it, names are
  distinct, and what stands in the table is what a look-up finds (`first_line_gives_directory`).

  The default entry is meant for the process's own line (`IsOwn`): the first with the own controller, or
  without one the first with a key. A line may list the name of the default entry itself, and then
  the first that does has the default directory (`default?_of_listed`). So the default is the own
  directory exactly when no such line stands in the way or the first one has the same directory
  (`default_is_own_iff`). It can be another one: `default_not_own`.
-/
import HostTables.Proofs.Cgroup.Confinement

namespace HostTables

/-- The first of the items that have the property. -/
def IsFirst {α : Type} (P : α → Prop) (items : List α) (item : α) : Prop :=
  ∃ before after, items = before ++ item :: after ∧ P item ∧ ∀ other ∈ before, ¬ P other

theorem find?_eq_some_iff_isFirst {α : Type} {p : α → Bool} {P : α → Prop} (h : ∀ item, p item = true ↔ P item)
    {items : List α} {item : α} : items.find? p = some item ↔ IsFirst P items item := by
  simp only [List.find?_eq_some_iff_append, Bool.not_eq_true', ← Bool.not_eq_true, h]
  constructor
  · rintro ⟨hitem, before, after, hitems, hbefore⟩
    exact ⟨before, after, hitems, hitem, hbefore⟩
  · rintro ⟨before, after, hitems, hitem, hbefore⟩
    exact ⟨hitem, before, after, hitems, hbefore⟩

theorem find?_eq_none_iff_forall {α : Type} {p : α → Bool} {P : α → Prop} (h : ∀ item, p item = true ↔ P item)
    {items : List α} : items.find? p = none ↔ ∀ item ∈ items, ¬ P item := by
  simp only [List.find?_eq_none, h]

/-- The line lists the name: it has a key, and the name is the key or a part of it. -/
def Membership.Lists (m : Membership) (name : Text) : Prop := m.key ≠ [] ∧ (name = m.key ∨ name ∈ m.keyParts)

instance (m : Membership) (name : Text) : Decidable (m.Lists name) := inferInstanceAs (Decidable (_ ∧ _))

namespace PathTable

variable {root : Path} {ms : List Membership} {containerized : Bool} {m : Membership} {name : Text}

/-! ## Lines and names -/

theorem lists_of_mem_keyParts (h : name ∈ m.keyParts) (hne : name ≠ []) : m.Lists name := by
  refine ⟨?_, Or.inr h⟩
  intro hkey
  rw [Membership.keyParts, hkey] at h
  exact hne (List.mem_singleton.mp h)

theorem listing?_eq_some_iff : listing? ms name = some m ↔ IsFirst (·.Lists name) ms m := by
  rw [listing?, keyed, List.find?_filter]
  exact find?_eq_some_iff_isFirst fun line => by simp [Membership.Lists, mem_namesOf_iff]

theorem listing?_eq_none_iff : listing? ms name = none ↔ ∀ m ∈ ms, ¬ m.Lists name := by
  rw [listing?, keyed, List.find?_filter]
  exact find?_eq_none_iff_forall fun line => by simp [Membership.Lists, mem_namesOf_iff]

/-! ## Look-up -/

theorem get?_of_ne_nil (table : PathTable) (hne : name ≠ []) : table.get? name = table.entry? name := by
  rw [get?, if_neg hne]

/-- A name that does not mean the default entry is looked up among the lines only. -/
theorem get?_ofLegacy (hne : name ≠ []) (hdefault : name ≠ defaultName) :
    (ofLegacy root ms containerized).get? name =
      (listing? ms name).map (Cgroup.legacyDirectory root containerized) := by
  rw [get?_of_ne_nil _ hne, entry?_ofLegacy, if_neg hdefault, Option.or_none]

/-- Names are distinct; a name has a directory exactly when a line lists it, and then that of the first
    line that does: the mount of its key, or in there its path; and every entry is found again. -/
theorem first_line_gives_directory (root : Path) (ms : List Membership) (containerized : Bool) :
    ((ofLegacy root ms containerized).entries.map Prod.fst).Nodup ∧
    (∀ name, name ≠ [] → name ≠ defaultName →
      ((∃ path, (ofLegacy root ms containerized).get? name = some path) ↔ ∃ m ∈ ms, m.Lists name) ∧
      ∀ m, IsFirst (·.Lists name) ms m →
        (ofLegacy root ms containerized).get? name =
          some (if containerized then root.join m.key
            else Cgroup.directoryUnder (root.join m.key) m.path)) ∧
    ∀ name path, (name, path) ∈ (ofLegacy root ms containerized).entries → name ≠ [] →
      (ofLegacy root ms containerized).get? name = some path := by
  refine ⟨ofLegacy_distinct root ms containerized, ?_, ?_⟩
  · intro name hne hdefault
    rw [get?_ofLegacy hne hdefault]
    refine ⟨?_, ?_⟩
    · cases hlisting : listing? ms name with
      | none => simpa using listing?_eq_none_iff.mp hlisting
      | some m =>
        obtain ⟨before, after, hms, hlists, -⟩ := listing?_eq_some_iff.mp hlisting
        have hm : m ∈ ms := hms ▸ List.mem_append_right before List.mem_cons_self
        exact ⟨fun _ => ⟨m, hm, hlists⟩, fun _ => ⟨_, rfl⟩⟩
    · intro m hfirst
      rw [listing?_eq_some_iff.mpr hfirst]
      rfl
  · intro name path hentry hne
    rw [get?_of_ne_nil _ hne]
    exact (mem_entries_iff (ofLegacy_distinct root ms containerized)).mp hentry

/-- A part that is the whole key of a later line, a hierarchy with a name, and the line of version 2. -/
def mixedLines : List Membership :=
  [⟨"4".toList, "cpu,cpuacct".toList, "/a".toList⟩, ⟨"3".toList, "cpuacct".toList, "/b".toList⟩,
   ⟨"1".toList, "name=systemd".toList, "//c".toList⟩, ⟨"0".toList, [], "/d".toList⟩]

theorem part_before_whole_key :
    (ofLegacy standardRoot mixedLines false).get? "cpuacct".toList = some (.ofString "/sys/fs/cgroup/cpu,cpuacct/a") ∧
    (ofLegacy standardRoot mixedLines true).get? "systemd".toList = some (.ofString "/sys/fs/cgroup/systemd") ∧
    (ofLegacy standardRoot mixedLines false).get? "pids".toList = none ∧
    (ofLegacy standardRoot mixedLines false).get? "systemd".toList = some (.ofString "/sys/fs/cgroup/systemd/c") := by
  obtain ⟨-, inside, found⟩ := first_line_gives_directory standardRoot mixedLines false
  obtain ⟨-, mounts, -⟩ := first_line_gives_directory standardRoot mixedLines true
  refine ⟨?_, ?_, ?_, ?_⟩
  · exact (inside _ (by decide) (by decide)).2 _ ⟨[], _, rfl, by decide, nofun⟩
  · exact (mounts _ (by decide) (by decide)).2 _ ⟨mixedLines.take 2, _, rfl, by decide, by decide⟩
  · have hnone : ¬ ∃ m ∈ mixedLines, m.Lists "pids".toList := by decide
    rw [← (inside _ (by decide) (by decide)).1] at hnone
    exact Option.eq_none_iff_forall_ne_some.mpr fun path hpath => hnone ⟨path, hpath⟩
  · exact found _ _ (by decide) (by decide)

/-! ## The default entry -/

/-- The line that stands for this process: the first with the own controller, or without one the first
    with a key. -/
def IsOwn (ms : List Membership) (m : Membership) : Prop :=
  IsFirst (·.Lists Membership.ownController) ms m ∨
    (∀ other ∈ ms, ¬ other.Lists Membership.ownController) ∧ IsFirst (·.key ≠ []) ms m

theorem isLegacyOwn_iff : m.isLegacyOwn = true ↔ m.Lists Membership.ownController := by
  rw [Membership.isLegacyOwn, List.contains_iff_mem]
  constructor
  · intro h
    exact lists_of_mem_keyParts h (by decide)
  · rintro ⟨-, h⟩
    exact (ownController_mem_namesOf m).mp (mem_namesOf_iff.mpr h)

theorem keyed_head?_eq_some_iff : (keyed ms).head? = some m ↔ IsFirst (·.key ≠ []) ms m := by
  rw [keyed, List.head?_filter]
  exact find?_eq_some_iff_isFirst fun line => by simp

theorem keyed_legacyOwn? : Membership.legacyOwn? (keyed ms) = Membership.legacyOwn? ms := by
  have hkey : (fun line : Membership => decide ((line.key != []) = true ∧ line.isLegacyOwn = true)) =
      Membership.isLegacyOwn := by
    funext line
    rw [Bool.eq_iff_iff, decide_eq_true_iff, and_iff_right_iff_imp]
    intro h
    simpa using (isLegacyOwn_iff.mp h).1
  rw [Membership.legacyOwn?, keyed, List.find?_filter, hkey]
  rfl

theorem legacyOwn?_eq_some_iff : Membership.legacyOwn? ms = some m ↔ IsFirst (·.Lists Membership.ownController) ms m :=
  find?_eq_some_iff_isFirst fun _ => isLegacyOwn_iff

theorem defaultMember?_eq_some_iff : defaultMember? ms = some m ↔ IsOwn ms m := by
  have hnone : Membership.legacyOwn? ms = none ↔ ∀ other ∈ ms, ¬ other.Lists Membership.ownController :=
    find?_eq_none_iff_forall fun _ => isLegacyOwn_iff
  rw [defaultMember?, keyed_legacyOwn?, Option.or_eq_some_iff, legacyOwn?_eq_some_iff, hnone, keyed_head?_eq_some_iff]
  rfl

/-- The first line that lists the name of the default entry has the default directory. -/
theorem default?_of_listed (h : IsFirst (·.Lists defaultName) ms m) :
    (ofLegacy root ms containerized).default? = some (Cgroup.legacyDirectory root containerized m) := by
  rw [default?, entry?_ofLegacy, listing?_eq_some_iff.mpr h]
  rfl

/-- Otherwise the own line has it. -/
theorem default?_of_own (hnone : ∀ other ∈ ms, ¬ other.Lists defaultName) (h : IsOwn ms m) :
    (ofLegacy root ms containerized).default? = some (Cgroup.legacyDirectory root containerized m) := by
  rw [default?, entry?_ofLegacy, listing?_eq_none_iff.mpr hnone, if_pos rfl, defaultMember?_eq_some_iff.mpr h]
  rfl

theorem default?_own_iff (h : IsOwn ms m) :
    (ofLegacy root ms containerized).default? = some (Cgroup.legacyDirectory root containerized m) ↔
      ∀ other, IsFirst (·.Lists defaultName) ms other →
        Cgroup.legacyDirectory root containerized other = Cgroup.legacyDirectory root containerized m := by
  constructor
  · intro hdefault other hother
    rw [default?_of_listed hother] at hdefault
    exact Option.some.inj hdefault
  · intro hsame
    cases hlisting : listing? ms defaultName with
    | none => exact default?_of_own (listing?_eq_none_iff.mp hlisting) h
    | some other =>
      have hother := listing?_eq_some_iff.mp hlisting
      rw [default?_of_listed hother, hsame other hother]

theorem defaultMember?_eq_none_iff : defaultMember? ms = none ↔ ∀ m ∈ ms, m.key = [] := by
  have hkeyed : keyed ms = [] ↔ ∀ m ∈ ms, m.key = [] := by simp [keyed]
  rw [← hkeyed, defaultMember?, Option.or_eq_none_iff, List.head?_eq_none_iff, and_iff_right_iff_imp]
  intro hnil
  rw [hnil]
  rfl

theorem default?_eq_none_iff : (ofLegacy root ms containerized).default? = none ↔ ∀ m ∈ ms, m.key = [] := by
  rw [default?, entry?_ofLegacy, if_pos rfl, Option.map_eq_none_iff, Option.or_eq_none_iff, listing?_eq_none_iff,
    defaultMember?_eq_none_iff, and_iff_right_iff_imp]
  intro hkeys m hm hlists
  exact hlists.1 (hkeys m hm)

/-- The default entry is what no name means. It has the directory of the own line, which is the process's
    own directory, exactly when the first line that lists the name of the default entry, if there is
    one, has the same. It is missing only if no line has a key. -/
theorem default_is_own_iff (root : Path) (ms : List Membership) :
    (∀ containerized, (ofLegacy root ms containerized).get? [] = (ofLegacy root ms containerized).default?) ∧
    (∀ directory, Cgroup.ownDirectory? root .legacy ms = some directory →
      ((ofLegacy root ms false).default? = some directory ↔
        ∀ other, IsFirst (·.Lists defaultName) ms other →
          Cgroup.directoryUnder (root.join other.key) other.path = directory)) ∧
    (∀ m, IsOwn ms m →
      ((ofLegacy root ms false).default? = some (Cgroup.directoryUnder (root.join m.key) m.path) ↔
        ∀ other, IsFirst (·.Lists defaultName) ms other →
          Cgroup.directoryUnder (root.join other.key) other.path = Cgroup.directoryUnder (root.join m.key) m.path) ∧
      ((ofLegacy root ms true).default? = some (root.join m.key) ↔
        ∀ other, IsFirst (·.Lists defaultName) ms other → root.join other.key = root.join m.key)) ∧
    ∀ containerized, (ofLegacy root ms containerized).default? = none ↔ ∀ m ∈ ms, m.key = [] := by
  refine ⟨fun containerized => rfl, ?_, ?_, fun containerized => default?_eq_none_iff⟩
  · intro directory hown
    obtain ⟨m, hm, rfl⟩ := Option.map_eq_some_iff.mp hown
    exact default?_own_iff (Or.inl (legacyOwn?_eq_some_iff.mp hm))
  · intro m hm
    exact ⟨default?_own_iff hm, default?_own_iff hm⟩

/-- A combined line with the own controller, behind another line. -/
def combinedLines : List Membership :=
  [⟨"12".toList, "pids".toList, "/a".toList⟩, ⟨"4".toList, "cpu,memory".toList, "/b".toList⟩]

theorem combined_default_is_own :
    Cgroup.ownDirectory? standardRoot .legacy combinedLines = some (.ofString "/sys/fs/cgroup/cpu,memory/b") ∧
    (ofLegacy standardRoot combinedLines false).default? = some (.ofString "/sys/fs/cgroup/cpu,memory/b") ∧
    (ofLegacy standardRoot combinedLines true).default? = some (.ofString "/sys/fs/cgroup/cpu,memory") := by
  obtain ⟨-, own, lines, -⟩ := default_is_own_iff standardRoot combinedLines
  have hdirectory : Cgroup.ownDirectory? standardRoot .legacy combinedLines =
      some (.ofString "/sys/fs/cgroup/cpu,memory/b") := by decide
  have hnone : ∀ other, ¬ IsFirst (·.Lists defaultName) combinedLines other := by
    intro other hother
    have hlisted := listing?_eq_some_iff.mpr hother
    rw [show listing? combinedLines defaultName = none by decide] at hlisted
    cases hlisted
  have hown : IsOwn combinedLines ⟨"4".toList, "cpu,memory".toList, "/b".toList⟩ :=
    Or.inl ⟨[⟨"12".toList, "pids".toList, "/a".toList⟩], [], rfl, by decide, by decide⟩
  refine ⟨hdirectory, (own _ hdirectory).mpr fun other h => absurd h (hnone other), ?_⟩
  exact (lines _ hown).2.mpr fun other h => absurd h (hnone other)

/-- A hierarchy that is called like the default entry. -/
def namesakeLine : Membership := ⟨"1".toList, "name=cgroup".toList, "/b".toList⟩

def memoryLine : Membership := ⟨"4".toList, "memory".toList, "/a".toList⟩

def pidsLine : Membership := ⟨"4".toList, "pids".toList, "/a".toList⟩

/-- With such a hierarchy the default is not the own directory, in a container not the mount of the own
    line, and where no line has the own controller not the directory of the first line. -/
theorem default_not_own :
    (Membership.ofContent "4:memory:/a\n1:name=cgroup:/b\n".toList = .ok [memoryLine, namesakeLine] ∧
      Cgroup.ownDirectory? standardRoot .legacy [memoryLine, namesakeLine] = some (.ofString "/sys/fs/cgroup/memory/a") ∧
      (ofLegacy standardRoot [memoryLine, namesakeLine] false).default? = some (.ofString "/sys/fs/cgroup/cgroup/b") ∧
      (ofLegacy standardRoot [memoryLine, namesakeLine] false).default? ≠ some (.ofString "/sys/fs/cgroup/memory/a") ∧
      (ofLegacy standardRoot [memoryLine, namesakeLine] true).default? ≠ some (standardRoot.join memoryLine.key)) ∧
    IsOwn [pidsLine, namesakeLine] pidsLine ∧
      (ofLegacy standardRoot [pidsLine, namesakeLine] false).default? = some (.ofString "/sys/fs/cgroup/cgroup/b") ∧
      (ofLegacy standardRoot [pidsLine, namesakeLine] false).default? ≠ some (.ofString "/sys/fs/cgroup/pids/a") := by
  have hfirst : IsFirst (·.key ≠ []) [pidsLine, namesakeLine] pidsLine := ⟨[], [namesakeLine], rfl, by decide, nofun⟩
  have hown : IsOwn [pidsLine, namesakeLine] pidsLine := Or.inr ⟨by decide, hfirst⟩
  exact ⟨⟨rfl, by decide, by decide, by decide, by decide⟩, hown, by decide, by decide⟩

end PathTable

end HostTables
