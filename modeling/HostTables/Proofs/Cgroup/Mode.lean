/-
  HostTables.Proofs.Cgroup.Mode — the mode depends on which mounts there are, not on how they are listed.

  Three kinds of mount count (`MountKind`). A mount table is readable when every line is blank or
  a mount line. Such a table gives the mode that the kinds listed in it stand for
  (`modeOfContent_of_readable`, `modeOf?_cases`), so its lines may change places, be repeated, and
  stand between blank and unrelated ones (`Rearranged`). Of any other table the answer is the
  first bad line (`modeOfContent_of_bad`); the lines behind it are not reached (`Reached`).
-/
import HostTables.Cgroup.Mode
import HostTables.Proofs.Format.MountLine
import HostTables.Proofs.Text.Utf8

namespace HostTables

/-! ## Blank lines -/

namespace MountLine

theorem splitSeparator?_eq_none {t : Text} (h : '-' ∉ t) : splitSeparator? t = none :=
  splitSeparator?_eq_none_iff.mpr fun hinside => h (hinside.subset (by decide))

/-- A blank line is no mount line: it has no separator. -/
theorem ofText_of_blank {line : Text} (h : line.all Text.isBlank = true) :
    ∃ cause, ofText line = .error cause := by
  have hdash : '-' ∉ dropLineFeeds line := by
    intro hm
    have hline : '-' ∈ line := by
      rw [dropLineFeeds, List.mem_reverse] at hm
      exact List.mem_reverse.mp ((List.dropWhile_sublist _).mem hm)
    have hblank : Text.isBlank '-' = true := List.all_eq_true.mp h '-' hline
    exact absurd hblank (by decide)
  exact ⟨.missingSeparator (dropLineFeeds line), by rw [ofText, splitSeparator?_eq_none hdash]⟩

end MountLine

namespace Cgroup

/-! ## Kinds of mount -/

/-- The mounts that decide the mode under a root. -/
inductive MountKind where
  /-- Version 2 at the root. -/
  | atRoot
  /-- Version 2 at `<root>/unified`. -/
  | beside
  /-- Version 1 at or below the root. -/
  | below
  deriving DecidableEq, Repr

/-- Mount points are compared by components: `/cg-x` is not below `/cg`. -/
def MountKind.Of (root : Path) (mount : MountLine) : MountKind → Prop
  | .atRoot => mount.fsType = "cgroup2".toList ∧ (Path.mk mount.mountPoint).components = root.components
  | .beside =>
    mount.fsType = "cgroup2".toList ∧ (Path.mk mount.mountPoint).components = (root.join unifiedName).components
  | .below => mount.fsType = "cgroup".toList ∧ root.components <+: (Path.mk mount.mountPoint).components

instance (root : Path) (mount : MountLine) : (kind : MountKind) → Decidable (kind.Of root mount)
  | .atRoot => inferInstanceAs (Decidable (_ ∧ _))
  | .beside => inferInstanceAs (Decidable (_ ∧ _))
  | .below => inferInstanceAs (Decidable (_ ∧ _))

/-- Among the mounts is one of the kind. -/
def Has (root : Path) (kind : MountKind) (mounts : List MountLine) : Prop := ∃ mount ∈ mounts, kind.Of root mount

instance (root : Path) (kind : MountKind) (mounts : List MountLine) : Decidable (Has root kind mounts) :=
  inferInstanceAs (Decidable (∃ _ ∈ _, _))

theorem any_isUnifiedRoot (root : Path) (mounts : List MountLine) :
    mounts.any (isUnifiedRoot root) = true ↔ Has root .atRoot mounts := by
  simp [isUnifiedRoot, Path.same, Has, MountKind.Of]

theorem any_isUnifiedBeside (root : Path) (mounts : List MountLine) :
    mounts.any (isUnifiedBeside root) = true ↔ Has root .beside mounts := by
  simp [isUnifiedBeside, Path.same, Has, MountKind.Of]

theorem any_isLegacy (root : Path) (mounts : List MountLine) :
    mounts.any (isLegacy root) = true ↔ Has root .below mounts := by
  simp [isLegacy, Path.startsWith, Has, MountKind.Of]

/-- What each answer says about the mounts. -/
theorem modeOf?_cases (root : Path) (mounts : List MountLine) :
    (modeOf? root mounts = some .unified ↔ Has root .atRoot mounts ∧ ¬ Has root .below mounts) ∧
    (modeOf? root mounts = some .hybrid ↔
      Has root .below mounts ∧ (Has root .atRoot mounts ∨ Has root .beside mounts)) ∧
    (modeOf? root mounts = some .legacy ↔
      Has root .below mounts ∧ ¬ Has root .atRoot mounts ∧ ¬ Has root .beside mounts) ∧
    (modeOf? root mounts = none ↔ ¬ Has root .atRoot mounts ∧ ¬ Has root .below mounts) := by
  simp only [← any_isUnifiedRoot, ← any_isUnifiedBeside, ← any_isLegacy, modeOf?]
  cases mounts.any (isLegacy root) <;> cases mounts.any (isUnifiedRoot root) <;>
    cases mounts.any (isUnifiedBeside root) <;> decide

/-- Only the kinds present matter. -/
theorem modeOf?_congr {root : Path} {mounts mounts' : List MountLine}
    (h : ∀ kind, Has root kind mounts ↔ Has root kind mounts') : modeOf? root mounts = modeOf? root mounts' := by
  have hroot : mounts.any (isUnifiedRoot root) = mounts'.any (isUnifiedRoot root) := by
    rw [Bool.eq_iff_iff, any_isUnifiedRoot, any_isUnifiedRoot, h]
  have hbeside : mounts.any (isUnifiedBeside root) = mounts'.any (isUnifiedBeside root) := by
    rw [Bool.eq_iff_iff, any_isUnifiedBeside, any_isUnifiedBeside, h]
  have hlegacy : mounts.any (isLegacy root) = mounts'.any (isLegacy root) := by
    rw [Bool.eq_iff_iff, any_isLegacy, any_isLegacy, h]
  simp only [modeOf?, hroot, hbeside, hlegacy]

/-! ## Lines -/

/-- The lines of a mount table, blank ones included. -/
abbrev tableLines (table : Text) : List Text := table.splitOn '\n'

theorem tableLines_joined {lines : List Text} (hne : lines ≠ []) (h : ∀ line ∈ lines, '\n' ∉ line) :
    tableLines (Text.joined ['\n'] lines) = lines :=
  List.splitOn_intercalate '\n' h hne

/-- The mounts that the lines stand for. -/
def mountsIn (lines : List Text) : List MountLine := lines.filterMap fun line => (MountLine.ofText line).toOption

/-- The line can be read: it is blank or a mount line. -/
def ReadableLine (line : Text) : Prop := line.all Text.isBlank = true ∨ (MountLine.ofText line).isOk = true

instance (line : Text) : Decidable (ReadableLine line) := inferInstanceAs (Decidable (_ ∨ _))

/-- Every line can be read. -/
def Readable (lines : List Text) : Prop := ∀ line ∈ lines, ReadableLine line

instance (lines : List Text) : Decidable (Readable lines) := inferInstanceAs (Decidable (∀ _ ∈ _, _))

theorem readable_nil : Readable [] := fun _ h => by cases h

theorem readable_cons {line : Text} {rest : List Text} : Readable (line :: rest) ↔ ReadableLine line ∧ Readable rest :=
  List.forall_mem_cons

theorem mem_mountsIn {lines : List Text} {mount : MountLine} :
    mount ∈ mountsIn lines ↔ ∃ line ∈ lines, MountLine.ofText line = .ok mount := by
  rw [mountsIn, List.mem_filterMap]
  refine exists_congr fun line => and_congr_right fun _ => ?_
  cases MountLine.ofText line with
  | error cause => simp [Except.toOption]
  | ok found => simp [Except.toOption]

theorem mountOf?_encode {line : Text} (origin : Path) (h : ReadableLine line) :
    mountOf? origin (Utf8.encode line) = .ok (MountLine.ofText line).toOption := by
  unfold mountOf?
  rw [Utf8.decode?_encode]
  dsimp only
  by_cases hblank : line.all Text.isBlank = true
  · obtain ⟨cause, hcause⟩ := MountLine.ofText_of_blank hblank
    rw [if_pos hblank, hcause]
    rfl
  · rw [if_neg hblank]
    rcases h with h | h
    · exact absurd h hblank
    · obtain ⟨mount, hmount⟩ := isOk_iff.mp h
      rw [hmount]
      rfl

/-- A line that cannot be read has the error of its own. -/
theorem mountOf?_eq_error {line : Text} (origin : Path) (h : ¬ ReadableLine line) :
    line.all Text.isBlank = false ∧ ∃ cause, MountLine.ofText line = .error cause ∧
      mountOf? origin (Utf8.encode line) = .error (.mountLine origin cause) := by
  unfold ReadableLine at h
  push Not at h
  obtain ⟨hblank, hmount⟩ := h
  refine ⟨by simpa using hblank, ?_⟩
  unfold mountOf?
  rw [Utf8.decode?_encode]
  dsimp only
  rw [if_neg hblank]
  cases hline : MountLine.ofText line with
  | error cause => exact ⟨cause, rfl, rfl⟩
  | ok mount =>
    rw [hline] at hmount
    exact absurd rfl hmount

theorem mountsOf_encode (origin : Path) {lines : List Text} (h : Readable lines) :
    mountsOf origin (lines.map Utf8.encode) = .ok (mountsIn lines) := by
  induction lines with
  | nil => rfl
  | cons line rest ih =>
    obtain ⟨hline, hrest⟩ := readable_cons.mp h
    simp only [List.map_cons, mountsOf, mountOf?_encode origin hline, ih hrest]
    cases hmount : (MountLine.ofText line).toOption with
    | none => simp [mountsIn, hmount, bind, Except.bind, pure, Except.pure]
    | some mount => simp [mountsIn, hmount, bind, Except.bind, pure, Except.pure]

/-- Reading the lines in order comes to this one: all before it can be read. -/
inductive Reached : List (List UInt8) → List UInt8 → Prop
  | here {line : List UInt8} {rest : List (List UInt8)} : Reached (line :: rest) line
  | behind {t : Text} {first line : List UInt8} {rest : List (List UInt8)} : Utf8.encode t = first → ReadableLine t →
      Reached rest line → Reached (first :: rest) line

/-- The lines behind the first bad one are not looked at. -/
theorem mountsOf_of_reached {origin : Path} {lines : List (List UInt8)} {line : List UInt8} {cause : CgroupError}
    (h : Reached lines line) (hline : mountOf? origin line = .error cause) : mountsOf origin lines = .error cause := by
  induction h with
  | here => exact bind_eq_error.mpr (Or.inl hline)
  | behind hencode ht _ ih =>
    subst hencode
    exact bind_eq_error.mpr (Or.inr ⟨_, mountOf?_encode origin ht, bind_eq_error.mpr (Or.inl (ih hline))⟩)

theorem reached_of_readable {before : List Text} (h : Readable before) (line : Text) (after : List Text) :
    Reached ((before ++ line :: after).map Utf8.encode) (Utf8.encode line) := by
  induction before with
  | nil => exact .here
  | cons first rest ih =>
    obtain ⟨hfirst, hrest⟩ := readable_cons.mp h
    exact .behind rfl hfirst (ih hrest)

/-- Lines that cannot all be read have a first one that cannot. -/
theorem exists_first_bad {lines : List Text} (h : ¬ Readable lines) :
    ∃ before line after, lines = before ++ line :: after ∧ Readable before ∧ ¬ ReadableLine line := by
  induction lines with
  | nil => exact absurd readable_nil h
  | cons first rest ih =>
    by_cases hfirst : ReadableLine first
    · have hrest : ¬ Readable rest := fun hr => h (readable_cons.mpr ⟨hfirst, hr⟩)
      obtain ⟨before, line, after, rfl, hbefore, hline⟩ := ih hrest
      exact ⟨first :: before, line, after, rfl, readable_cons.mpr ⟨hfirst, hbefore⟩, hline⟩
    · exact ⟨[], first, rest, rfl, readable_nil, hfirst⟩

/-! ## Rearranged lines -/

/-- The second list has the lines of the first in some order, and more that say nothing new. -/
inductive Rearranged (root : Path) : List Text → List Text → Prop
  | reordered {lines lines' : List Text} : lines.Perm lines' → Rearranged root lines lines'
  | repeated {before after : List Text} {line : Text} : line ∈ before ++ after →
      Rearranged root (before ++ after) (before ++ line :: after)
  | blank {before after : List Text} {line : Text} : line.all Text.isBlank = true →
      Rearranged root (before ++ after) (before ++ line :: after)
  | unrelated {before after : List Text} {line : Text} {mount : MountLine} : MountLine.ofText line = .ok mount →
      (∀ kind : MountKind, ¬ kind.Of root mount) → Rearranged root (before ++ after) (before ++ line :: after)
  | trans {lines lines' lines'' : List Text} : Rearranged root lines lines' → Rearranged root lines' lines'' →
      Rearranged root lines lines''

theorem has_insert_iff {root : Path} {kind : MountKind} {before after : List Text} {line : Text} :
    Has root kind (mountsIn (before ++ line :: after)) ↔
      (∃ mount, MountLine.ofText line = .ok mount ∧ kind.Of root mount) ∨ Has root kind (mountsIn (before ++ after)) := by
  simp only [Has, mem_mountsIn, List.mem_append, List.mem_cons]
  constructor
  · rintro ⟨mount, ⟨l, hl, hmount⟩, hkind⟩
    rcases hl with hl | rfl | hl
    · exact Or.inr ⟨mount, ⟨l, Or.inl hl, hmount⟩, hkind⟩
    · exact Or.inl ⟨mount, hmount, hkind⟩
    · exact Or.inr ⟨mount, ⟨l, Or.inr hl, hmount⟩, hkind⟩
  · rintro (⟨mount, hmount, hkind⟩ | ⟨mount, ⟨l, hl, hmount⟩, hkind⟩)
    · exact ⟨mount, ⟨line, Or.inr (Or.inl rfl), hmount⟩, hkind⟩
    · exact ⟨mount, ⟨l, hl.imp_right Or.inr, hmount⟩, hkind⟩

namespace Rearranged

variable {root : Path} {lines lines' : List Text}

theorem readable (h : Rearranged root lines lines') : Readable lines → Readable lines' := by
  have hinsert : ∀ {before after : List Text} {line : Text}, ReadableLine line → Readable (before ++ after) →
      Readable (before ++ line :: after) := by
    intro before after line hline hr l hl
    rcases List.mem_append.mp hl with hl | hl
    · exact hr l (List.mem_append_left _ hl)
    · rcases List.mem_cons.mp hl with rfl | hl
      · exact hline
      · exact hr l (List.mem_append_right _ hl)
  induction h with
  | reordered hp => exact fun hr l hl => hr l (hp.mem_iff.mpr hl)
  | repeated hm => exact fun hr => hinsert (hr _ hm) hr
  | blank hb => exact hinsert (Or.inl hb)
  | unrelated hmount _ => exact hinsert (Or.inr (by rw [hmount]; rfl))
  | trans _ _ ih ih' => exact fun hr => ih' (ih hr)

/-- The same kinds of mount are listed. -/
theorem has_iff (h : Rearranged root lines lines') (kind : MountKind) :
    Has root kind (mountsIn lines) ↔ Has root kind (mountsIn lines') := by
  induction h with
  | reordered hp =>
    simp only [Has, mem_mountsIn]
    simp only [hp.mem_iff]
  | repeated hm =>
    rw [has_insert_iff, iff_or_self]
    rintro ⟨mount, hmount, hkind⟩
    exact ⟨mount, mem_mountsIn.mpr ⟨_, hm, hmount⟩, hkind⟩
  | blank hb =>
    rw [has_insert_iff, iff_or_self]
    rintro ⟨mount, hmount, -⟩
    obtain ⟨cause, hcause⟩ := MountLine.ofText_of_blank hb
    rw [hcause] at hmount
    cases hmount
  | unrelated hfound hnone =>
    rw [has_insert_iff, iff_or_self]
    rintro ⟨mount, hmount, hkind⟩
    rw [hfound] at hmount
    cases hmount
    exact absurd hkind (hnone kind)
  | trans _ _ ih ih' => exact ih.trans ih'

end Rearranged

/-! ## The mode -/

/-- A readable table gives the mode of its mounts. -/
theorem modeOfContent_of_readable (origin root : Path) {table : Text} (h : Readable (tableLines table)) :
    modeOfContent origin root (Utf8.encode table) =
      match modeOf? root (mountsIn (tableLines table)) with
      | some mode => .ok mode
      | none => .error (.noCgroupMount root origin) := by
  unfold modeOfContent
  rw [lineFeed, Utf8.splitOn_encode, mountsOf_encode origin h]
  rfl

/-- A table that is not readable gives the error of its first bad line. -/
theorem modeOfContent_of_bad (origin root : Path) {table : Text} (h : ¬ Readable (tableLines table)) :
    ∃ before line after cause, tableLines table = before ++ line :: after ∧ Readable before ∧
      line.all Text.isBlank = false ∧ MountLine.ofText line = .error cause ∧
      modeOfContent origin root (Utf8.encode table) = .error (.mountLine origin cause) := by
  obtain ⟨before, line, after, hlines, hbefore, hline⟩ := exists_first_bad h
  obtain ⟨hblank, cause, hcause, herror⟩ := mountOf?_eq_error origin hline
  have hmounts := mountsOf_of_reached (reached_of_readable hbefore line after) herror
  rw [← hlines, ← Utf8.splitOn_encode] at hmounts
  exact ⟨before, line, after, cause, hlines, hbefore, hblank, hcause, bind_eq_error.mpr (Or.inl hmounts)⟩

/-- Detection reads the mount table only if the root exists. -/
theorem detectMode_of_content {files : FileTree} {mountTable root : Path} {content : List UInt8}
    (hroot : files.pathExists root = .ok true) (hread : files.readBytes mountTable = .ok content) :
    detectMode files mountTable root = modeOfContent mountTable root content := by
  obtain ⟨entry, hopen, hcontent⟩ := bind_eq_ok.mp hread
  simp only [detectMode, hroot, hopen, hcontent]

/-- The tree whose mount table, at `/mountinfo`, has the content. -/
def treeOf (content : List UInt8) : FileTree :=
  ⟨[(["cg".toList], .directory), (["mountinfo".toList], .file content)], []⟩

theorem readBytes_treeOf (content : List UInt8) : (treeOf content).readBytes (.ofString "/mountinfo") = .ok content := rfl

/-- The table lists a mount of the kind. -/
def Lists (root : Path) (table : Text) (kind : MountKind) : Prop := Has root kind (mountsIn (tableLines table))

/-- The mode is a matter of which kinds of mount a readable table lists, so it is the same for every
    rearrangement of the table. A table with a bad line gives the error of the first one. -/
theorem mode_depends_on_mounts (origin root : Path) :
    (∀ table : Text, Readable (tableLines table) →
      (modeOfContent origin root (Utf8.encode table) = .ok .unified ↔
        Lists root table .atRoot ∧ ¬ Lists root table .below) ∧
      (modeOfContent origin root (Utf8.encode table) = .ok .hybrid ↔
        Lists root table .below ∧ (Lists root table .atRoot ∨ Lists root table .beside)) ∧
      (modeOfContent origin root (Utf8.encode table) = .ok .legacy ↔
        Lists root table .below ∧ ¬ Lists root table .atRoot ∧ ¬ Lists root table .beside) ∧
      (modeOfContent origin root (Utf8.encode table) = .error (.noCgroupMount root origin) ↔
        ¬ Lists root table .atRoot ∧ ¬ Lists root table .below)) ∧
    (∀ table table' : Text, Readable (tableLines table) → Rearranged root (tableLines table) (tableLines table') →
      modeOfContent origin root (Utf8.encode table') = modeOfContent origin root (Utf8.encode table)) ∧
    (∀ table : Text, ¬ Readable (tableLines table) →
      ∃ before line after cause, tableLines table = before ++ line :: after ∧ Readable before ∧
        line.all Text.isBlank = false ∧ MountLine.ofText line = .error cause ∧
        modeOfContent origin root (Utf8.encode table) = .error (.mountLine origin cause)) ∧
    (∀ (files : FileTree) (content : List UInt8), files.pathExists root = .ok true →
      files.readBytes origin = .ok content → detectMode files origin root = modeOfContent origin root content) := by
  refine ⟨?_, ?_, fun table => modeOfContent_of_bad origin root, fun files content => detectMode_of_content⟩
  · intro table hr
    have hmode := modeOfContent_of_readable origin root hr
    obtain ⟨hunified, hhybrid, hlegacy, hnone⟩ := modeOf?_cases root (mountsIn (tableLines table))
    rw [hmode]
    refine ⟨.trans ?_ hunified, .trans ?_ hhybrid, .trans ?_ hlegacy, .trans ?_ hnone⟩ <;>
      cases modeOf? root (mountsIn (tableLines table)) <;> simp
  · intro table table' hr h
    rw [modeOfContent_of_readable origin root hr, modeOfContent_of_readable origin root (h.readable hr),
      modeOf?_congr h.has_iff]

/-- Version 1 beside the root `/cg`, not below it. -/
def lookalikeLine : Text := "30 24 0:27 / /cg-x rw - cgroup cgroup rw".toList

def rootLine : Text := "35 24 0:30 / /cg rw - cgroup2 cgroup2 rw".toList

def lookalikeTable : Text := Text.joined ['\n'] [lookalikeLine, rootLine]

/-- The same mounts the other way round, a blank line between them and one of them twice. -/
def shuffledTable : Text := Text.joined ['\n'] [rootLine, [' '], lookalikeLine, rootLine]

def tornTable : Text := Text.joined ['\n'] [rootLine, "30 24 0:27".toList]

def lookalikeFiles : FileTree :=
  ⟨[(["cg".toList], .directory), (["mountinfo".toList], .file (Utf8.encode lookalikeTable))], []⟩

theorem lookalike_mount_does_not_count :
    modeOfContent (.ofString "/mountinfo") (.ofString "/cg") (Utf8.encode lookalikeTable) = .ok .unified ∧
    modeOfContent (.ofString "/mountinfo") (.ofString "/cg") (Utf8.encode shuffledTable) = .ok .unified ∧
    (∃ cause, modeOfContent (.ofString "/mountinfo") (.ofString "/cg") (Utf8.encode tornTable) =
      .error (.mountLine (.ofString "/mountinfo") cause)) ∧
    detectMode lookalikeFiles (.ofString "/mountinfo") (.ofString "/cg") = .ok .unified := by
  obtain ⟨modes, rearranged, torn, detection⟩ := mode_depends_on_mounts (.ofString "/mountinfo") (.ofString "/cg")
  have hlook : tableLines lookalikeTable = [lookalikeLine, rootLine] := tableLines_joined nofun (by decide)
  have hshuffled : tableLines shuffledTable = [rootLine, [' '], lookalikeLine, rootLine] :=
    tableLines_joined nofun (by decide)
  have htorn : tableLines tornTable = [rootLine, "30 24 0:27".toList] := tableLines_joined nofun (by decide)
  have hreadable : Readable (tableLines lookalikeTable) := by rw [hlook]; decide
  have hunified : modeOfContent (.ofString "/mountinfo") (.ofString "/cg") (Utf8.encode lookalikeTable) = .ok .unified := by
    refine (modes lookalikeTable hreadable).1.mpr ?_
    unfold Lists
    rw [hlook]
    decide
  refine ⟨hunified, ?_, ?_, ?_⟩
  · refine (rearranged lookalikeTable shuffledTable hreadable ?_).trans hunified
    rw [hlook, hshuffled]
    have hswap : Rearranged (.ofString "/cg") [lookalikeLine, rootLine] ([rootLine] ++ [lookalikeLine]) :=
      .reordered (.swap rootLine lookalikeLine [])
    have hblank : Rearranged (.ofString "/cg") ([rootLine] ++ [lookalikeLine]) ([rootLine] ++ [' '] :: [lookalikeLine]) :=
      .blank rfl
    have hrepeat : Rearranged (.ofString "/cg") ([rootLine, [' '], lookalikeLine] ++ [])
        ([rootLine, [' '], lookalikeLine] ++ rootLine :: []) := .repeated List.mem_cons_self
    exact hswap.trans (hblank.trans hrepeat)
  · obtain ⟨before, line, after, cause, -, -, -, -, herror⟩ := torn tornTable (by rw [htorn]; decide)
    exact ⟨cause, herror⟩
  · have hlocate : lookalikeFiles.locate (.ofString "/mountinfo") = .ok ["mountinfo".toList] := by decide
    have hopen : lookalikeFiles.openEntry (.ofString "/mountinfo") = .ok (.file (Utf8.encode lookalikeTable)) :=
      bind_eq_ok.mpr ⟨_, hlocate, rfl⟩
    rw [detection lookalikeFiles _ (by decide) (bind_eq_ok.mpr ⟨_, hopen, rfl⟩), hunified]

end Cgroup

end HostTables
