/-
  HostTables.Proofs.Cgroup.UnifiedTable — the table of a version 2 layout.

  The controllers are those on the only line of `cgroup.controllers` in the cgroup's directory, or none if the file is
  blank (`Controllers`); any other content is refused (`controllersOf_eq_error_iff`). Insertion keeps the names that
  are there and adds new ones behind them (`entries_insertAll`), so that the table has each controller where it
  is first listed and the default name behind all, unless it is the name of a controller.

  `unified_table_law`: the table and the two errors, each with when it is the answer. A cgroup path of slashes
  only leads nowhere below its base (`directoryUnder_of_slashes`), so for it the table is the same in a container.
-/
import HostTables.Proofs.Cgroup.PathTable
import HostTables.Proofs.Format.Signature
import HostTables.Proofs.Machine.Walk
import Mathlib.Data.List.TakeWhile

namespace HostTables.PathTable

/-! ## Controllers -/

/-- The controllers that a content lists: none if it is blank, otherwise those on its only line. -/
inductive Controllers (content : Text) : List Text → Prop
  | blank : (∀ c ∈ content, Text.isBlank c = true) → Controllers content []
  | line {line : Text} : (∃ c ∈ content, Text.isBlank c = false) → Text.lines content = [line] →
      Controllers content (Text.tokens line)

variable {content : Text} {names : List Text} {cause : ParseError}

theorem controllersOf_of_blank (h : ∀ c ∈ content, Text.isBlank c = true) : controllersOf content = .ok [] :=
  if_pos (List.all_eq_true.mpr h)

theorem controllersOf_of_some (h : ∃ c ∈ content, Text.isBlank c = false) :
    controllersOf content = Text.tokens <$> Format.singleLine content := by
  have hall : ¬ content.all Text.isBlank = true := by simpa using h
  rw [controllersOf, if_neg hall]
  cases Format.singleLine content <;> rfl

theorem blank_or_some (content : Text) :
    (∀ c ∈ content, Text.isBlank c = true) ∨ ∃ c ∈ content, Text.isBlank c = false := by
  by_cases h : ∃ c ∈ content, Text.isBlank c = false
  · exact Or.inr h
  · exact Or.inl (by simpa using h)

theorem controllersOf_eq_ok_iff : controllersOf content = .ok names ↔ Controllers content names := by
  constructor
  · intro h
    rcases blank_or_some content with hblank | hsome
    · rw [controllersOf_of_blank hblank] at h
      cases h
      exact .blank hblank
    · rw [controllersOf_of_some hsome] at h
      obtain ⟨line, hline, rfl⟩ := map_eq_ok.mp h
      exact .line hsome (Format.singleLine_eq_ok_iff.mp hline)
  · intro h
    cases h with
    | blank hblank => exact controllersOf_of_blank hblank
    | line hsome hline =>
      rw [controllersOf_of_some hsome, Format.singleLine_eq_ok_iff.mpr hline]
      rfl

theorem controllersOf_eq_error_iff : controllersOf content = .error cause ↔
    (∃ c ∈ content, Text.isBlank c = false) ∧ (Text.lines content).length ≠ 1 ∧
      cause = .lineCount (.exactly 1) (Text.lines content).length := by
  rcases blank_or_some content with hblank | hsome
  · have hnone : ¬ ∃ c ∈ content, Text.isBlank c = false := by simpa using hblank
    simp [controllersOf_of_blank hblank, hnone]
  · rw [controllersOf_of_some hsome, map_eq_error, Format.singleLine_eq_error_iff, and_iff_right hsome]

/-! ## Tables -/

/-- The table of a directory: each controller where it is listed first, and the default name if it is none of them. -/
def unifiedTable (names : List Text) (directory : Path) : PathTable :=
  ⟨(names.eraseDups ++ if defaultName ∈ names then [] else [defaultName]).map (·, directory)⟩

theorem insertAll_controllers (names : List Text) (directory : Path) :
    empty.insertAll (names ++ [defaultName]) directory = unifiedTable names directory := by
  have hentries := entries_insertAll (names ++ [defaultName]) directory empty
  have hall : ((names ++ [defaultName]).filter fun name => (empty.entry? name).isNone) = names ++ [defaultName] :=
    List.filter_eq_self.mpr fun _ _ => rfl
  have hdefault : List.eraseDups ([defaultName].removeAll names) =
      if defaultName ∈ names then [] else [defaultName] := by
    by_cases h : defaultName ∈ names
    · simp [List.removeAll, h]
    · simp [List.removeAll, h, List.eraseDups_cons]
  rw [hall, List.eraseDups_append, hdefault] at hentries
  exact congrArg PathTable.mk hentries

theorem get?_unifiedTable (names : List Text) (directory : Path) (name : Text) :
    (unifiedTable names directory).get? name =
      if name = [] ∨ name = defaultName ∨ name ∈ names then some directory else none := by
  rw [← insertAll_controllers, get?, entry?_insertAll]
  have hnone : ∀ other, empty.entry? other = none := fun _ => rfl
  by_cases hnil : name = []
  · simp [hnil, hnone]
  · simp [hnil, hnone, or_comm]

theorem unifiedTable_distinct (names : List Text) (directory : Path) : (unifiedTable names directory).Distinct := by
  have hempty : empty.Distinct := List.nodup_nil
  rw [← insertAll_controllers]
  exact insertAll_distinct hempty

/-- The file that lists the controllers of the cgroup. -/
def controllersPath (root : Path) (path : Text) (containerized : Bool) : Path :=
  (unifiedDirectory root path containerized).join controllersFile

variable {files : FileTree} {root : Path} {path : Text} {containerized : Bool} {table : PathTable}

/-- The file is read, its controllers are listed, and the table is made of them. -/
theorem ofUnified_eq (files : FileTree) (root : Path) (path : Text) (containerized : Bool) :
    ofUnified files root path containerized =
      (files.readText (controllersPath root path containerized)).mapError
          (.read (controllersPath root path containerized)) >>= fun content =>
        (controllersOf content).mapError (.parse (controllersPath root path containerized)) >>= fun names =>
          .ok (unifiedTable names (unifiedDirectory root path containerized)) := by
  simp only [ofUnified, controllersPath]
  cases files.readText ((unifiedDirectory root path containerized).join controllersFile) with
  | error fault => rfl
  | ok content =>
    simp only [Except.mapError, ok_bind]
    cases controllersOf content with
    | error cause => rfl
    | ok names => simp only [insertAll_controllers, ok_bind]

theorem ofUnified_eq_ok_iff : ofUnified files root path containerized = .ok table ↔
    ∃ content names, files.readText (controllersPath root path containerized) = .ok content ∧
      Controllers content names ∧ table = unifiedTable names (unifiedDirectory root path containerized) := by
  simp only [ofUnified_eq, bind_eq_ok, mapError_eq_ok, controllersOf_eq_ok_iff, Except.ok.injEq]
  constructor
  · rintro ⟨content, hread, names, hnames, rfl⟩
    exact ⟨content, names, hread, hnames, rfl⟩
  · rintro ⟨content, names, hread, hnames, rfl⟩
    exact ⟨content, hread, names, hnames, rfl⟩

theorem ofUnified_eq_error_iff {e : CgroupError} : ofUnified files root path containerized = .error e ↔
    (∃ fault, files.readText (controllersPath root path containerized) = .error fault ∧
      e = .read (controllersPath root path containerized) fault) ∨
    ∃ content, files.readText (controllersPath root path containerized) = .ok content ∧
      (∃ c ∈ content, Text.isBlank c = false) ∧ (Text.lines content).length ≠ 1 ∧
      e = .parse (controllersPath root path containerized) (.lineCount (.exactly 1) (Text.lines content).length) := by
  simp only [ofUnified_eq, bind_eq_error, mapError_eq_error, mapError_eq_ok, controllersOf_eq_error_iff, reduceCtorEq,
    and_false, exists_false, or_false]
  constructor
  · rintro (⟨fault, hread, rfl⟩ | ⟨content, hread, _, ⟨hsome, hlines, rfl⟩, rfl⟩)
    · exact Or.inl ⟨fault, hread, rfl⟩
    · exact Or.inr ⟨content, hread, hsome, hlines, rfl⟩
  · rintro (⟨fault, hread, rfl⟩ | ⟨content, hread, hsome, hlines, rfl⟩)
    · exact Or.inl ⟨fault, hread, rfl⟩
    · exact Or.inr ⟨content, hread, _, ⟨hsome, hlines, rfl⟩, rfl⟩

/-- Slashes alone lead nowhere below a directory. -/
theorem directoryUnder_of_slashes (h : ∀ c ∈ path, c = '/') : Cgroup.directoryUnder root path = root := by
  have hnone : path.dropWhile (· == '/') = [] := List.dropWhile_eq_nil_iff.mpr (by simpa using h)
  rw [Cgroup.directoryUnder, hnone]

theorem ofLegacy_of_slashes {ms : List Membership} (h : ∀ m ∈ ms, ∀ c ∈ m.path, c = '/') :
    ofLegacy root ms true = ofLegacy root ms false := by
  have hsame : ∀ m ∈ ms, Cgroup.legacyDirectory root true m = Cgroup.legacyDirectory root false m := fun m hm =>
    (directoryUnder_of_slashes (h m hm)).symm
  have hkeyed : ∀ m ∈ keyed ms, m ∈ ms := fun m hm => (List.mem_filter.mp hm).1
  have hfold := List.foldl_ext
    (fun (table : PathTable) m => table.insertAll (namesOf m) (Cgroup.legacyDirectory root true m))
    (fun (table : PathTable) m => table.insertAll (namesOf m) (Cgroup.legacyDirectory root false m)) empty
    fun _ m hm => by rw [hsame m (hkeyed m hm)]
  unfold ofLegacy
  rw [hfold]
  cases hdefault : defaultMember? ms with
  | none => rfl
  | some m =>
    obtain ⟨name, hlisting⟩ := listing?_of_default hdefault
    simp only [hsame m (hkeyed m (List.mem_of_find?_eq_some hlisting))]

/-- The answer is an error exactly when the file of the controllers cannot be read, or says something on other than
    one line. Otherwise it is the table of the controllers on that line; every name in it, and no name, has the one
    directory. For a path of slashes only, the tables of both layouts are the same in a container. -/
theorem unified_table_law (files : FileTree) (root : Path) (path : Text) (containerized : Bool) :
    (∀ e, ofUnified files root path containerized = .error e ↔
      (∃ fault, files.readText (controllersPath root path containerized) = .error fault ∧
        e = .read (controllersPath root path containerized) fault) ∨
      ∃ content, files.readText (controllersPath root path containerized) = .ok content ∧
        (∃ c ∈ content, Text.isBlank c = false) ∧ (Text.lines content).length ≠ 1 ∧
        e = .parse (controllersPath root path containerized) (.lineCount (.exactly 1) (Text.lines content).length)) ∧
    (∀ table, ofUnified files root path containerized = .ok table ↔
      ∃ content names, files.readText (controllersPath root path containerized) = .ok content ∧
        Controllers content names ∧ table = unifiedTable names (unifiedDirectory root path containerized)) ∧
    (∀ table, ofUnified files root path containerized = .ok table →
      table.Distinct ∧ table.get? [] = some (unifiedDirectory root path containerized) ∧
      ∀ name directory, (name, directory) ∈ table.entries →
        directory = unifiedDirectory root path containerized ∧ table.get? name = some directory) ∧
    ((∀ c ∈ path, c = '/') → ofUnified files root path true = ofUnified files root path false) ∧
    ∀ ms : List Membership, (∀ m ∈ ms, ∀ c ∈ m.path, c = '/') → ofLegacy root ms true = ofLegacy root ms false := by
  refine ⟨fun _ => ofUnified_eq_error_iff, fun _ => ofUnified_eq_ok_iff, ?_, ?_, fun _ => ofLegacy_of_slashes⟩
  · intro table htable
    obtain ⟨content, names, -, -, rfl⟩ := ofUnified_eq_ok_iff.mp htable
    refine ⟨unifiedTable_distinct _ _, ?_, ?_⟩
    · rw [get?_unifiedTable, if_pos (Or.inl rfl)]
    · intro name directory hentry
      obtain ⟨other, hother, heq⟩ := List.mem_map.mp hentry
      obtain ⟨rfl, rfl⟩ := Prod.mk.inj heq
      refine ⟨rfl, (get?_unifiedTable names _ other).trans (if_pos (Or.inr ?_))⟩
      rcases List.mem_append.mp hother with hm | hm
      · exact Or.inr (List.mem_eraseDups.mp hm)
      · split at hm
        · cases hm
        · exact Or.inl (List.mem_singleton.mp hm)
  · intro hslashes
    have hdirectory : unifiedDirectory root path true = unifiedDirectory root path false :=
      (directoryUnder_of_slashes hslashes).symm
    simp only [ofUnified, hdirectory]

/-- The cgroup of a service, with this content in the file of its controllers. -/
def serviceFiles (content : String) : FileTree :=
  ⟨[(["cg".toList], .directory), (["cg".toList, "svc".toList], .directory),
    (["cg".toList, "svc".toList, controllersFile], .file (Utf8.encode content.toList))], []⟩

theorem readText_serviceFiles (content : String) :
    (serviceFiles content).readText (controllersPath (.ofString "/cg") "//svc".toList false) = .ok content.toList :=
  FileTree.readText_of_encode rfl

/-- A controller that is listed twice, and one that is called like the default entry; a blank file; two lines; and
    a path of two slashes. -/
theorem controllers_entered_once :
    ofUnified (serviceFiles "cpu cgroup io cpu\n") (.ofString "/cg") "//svc".toList false =
      .ok ⟨[("cpu".toList, .ofString "/cg/svc"), ("cgroup".toList, .ofString "/cg/svc"),
        ("io".toList, .ofString "/cg/svc")]⟩ ∧
    ofUnified (serviceFiles " \n\t\n") (.ofString "/cg") "//svc".toList false =
      .ok ⟨[("cgroup".toList, .ofString "/cg/svc")]⟩ ∧
    ofUnified (serviceFiles "cpu\nio\n") (.ofString "/cg") "//svc".toList false =
      .error (.parse (.ofString "/cg/svc/cgroup.controllers") (.lineCount (.exactly 1) 2)) ∧
    ofUnified (serviceFiles "cpu\n") (.ofString "/cg/svc") "//".toList true =
      ofUnified (serviceFiles "cpu\n") (.ofString "/cg/svc") "//".toList false := by
  obtain ⟨-, listed, -⟩ := unified_table_law (serviceFiles "cpu cgroup io cpu\n") (.ofString "/cg") "//svc".toList false
  obtain ⟨-, blank, -⟩ := unified_table_law (serviceFiles " \n\t\n") (.ofString "/cg") "//svc".toList false
  obtain ⟨torn, -⟩ := unified_table_law (serviceFiles "cpu\nio\n") (.ofString "/cg") "//svc".toList false
  obtain ⟨-, -, -, slashes, -⟩ := unified_table_law (serviceFiles "cpu\n") (.ofString "/cg/svc") "//".toList false
  refine ⟨?_, ?_, ?_, ?_⟩
  · exact (listed _).mpr ⟨_, _, readText_serviceFiles _, .line ⟨'c', by decide, rfl⟩ rfl, by decide⟩
  · exact (blank _).mpr ⟨_, _, readText_serviceFiles _, .blank (List.all_eq_true.mp (by decide)), by decide⟩
  · exact (torn _).mpr (Or.inr ⟨_, readText_serviceFiles _, ⟨'c', by decide, rfl⟩, by decide, rfl⟩)
  · exact slashes (by simp)

end HostTables.PathTable
