/-
  HostTables.Proofs.Query.Confined — no query answers with what lies outside its directory.

  A cgroup file name is resolved under the directory of the text before its first point
  (`filePath_eq_ok_iff`), a Downward API name under the configured path. Both are resolved by
  `resolveUnder`, so a query ends in one of three ways (`Confined`): the subsystem is off, an
  error quotes no file, or what comes out is made of a file at or below the location of the
  directory. There is one lemma for each query that reads such a file. `files_confined` puts
  them beside the facts about a single name, and contexts are set up so that all of it applies.
-/
import HostTables.Machine.Observed
import HostTables.Proofs.Context
import HostTables.Proofs.Machine.Confined
import HostTables.Query.Execute

namespace HostTables

/-! ## The directory of a name -/

/-- The directory that the table has for the text before the first point of a name; no text
    means the default entry. -/
def CgroupState.DirectoryOf (state : CgroupState) (name : Text) (directory : Path) : Prop :=
  ∃ controller rest, name = controller ++ '.' :: rest ∧ '.' ∉ controller ∧
    state.paths.entry? (if controller = [] then PathTable.defaultName else controller) = some directory

theorem CgroupState.filePath_eq_ok_iff {files : FileTree} {state : CgroupState} {name : Text} {path : Path} :
    state.filePath files name = .ok path ↔
      ∃ directory, state.DirectoryOf name directory ∧ files.resolveUnder directory name = .ok path := by
  unfold filePath
  constructor
  · intro h
    obtain ⟨⟨⟩, -, h⟩ := bind_eq_ok.mp h
    split at h
    · cases h
    · rename_i controller rest hsplit
      split at h
      · cases h
      · rename_i directory hd
        obtain ⟨hname, hpoint⟩ := Text.splitOnce?_eq_some_iff.mp hsplit
        exact ⟨directory, ⟨controller, rest, hname, hpoint, hd⟩, mapError_eq_ok.mp h⟩
  · rintro ⟨directory, ⟨controller, rest, hname, hpoint, hd⟩, h⟩
    have hsplit := Text.splitOnce?_eq_some_iff.mpr ⟨hname, hpoint⟩
    have hget : state.paths.get? controller = some directory := hd
    obtain ⟨-, hc, -⟩ := FileTree.resolveUnder_eq_ok_iff.mp h
    rw [hc, hsplit]
    refine bind_eq_ok.mpr ⟨(), rfl, ?_⟩
    simp only [hget]
    exact mapError_eq_ok.mpr h

theorem Context.Anchored.directory_ne_empty {context : Context} (ha : context.Anchored) {name : Text}
    {directory : Path} (hd : context.cgroup.DirectoryOf name directory) : directory.text ≠ [] := by
  obtain ⟨controller, rest, -, -, he⟩ := hd
  exact ha.cgroup _ (PathTable.mem_of_entry? he)

/-! ## What answers are made of -/

/-- Errors about a table are the only ones that can quote what a file holds. -/
def QueryError.quotesContent : QueryError → Bool
  | .table _ => true
  | _ => false

namespace Query

section

variable (files : FileTree) (enabled : Bool) (isDirectory : Path → Prop) (name : Text) (off : Answer)
  (answerOf : Path → Text → Except QueryError Answer)

/-- How a query of a file ends: with the answer of a subsystem that is off, with an error that
    quotes no file, or with what `answerOf` makes of a file under the directory of its name. -/
inductive Confined : Except QueryError Answer → Prop
  | off (hoff : enabled = false) : Confined (.ok off)
  | refused (e : QueryError) (he : e.quotesContent = false) : Confined (.error e)
  | read (directory path : Path) (content : Text) (hd : isDirectory directory)
      (hp : files.resolveUnder directory name = .ok path) (hr : files.readText path = .ok content)
      (hu : files.HoldsUnder directory content) : Confined (answerOf path content)

end

/-- The answer of a view to the content of a file. -/
def answerOfContent (reading : Reading) (path : Path) (content : Text) : Except QueryError Answer :=
  reading.ofTable <$> do
    let rows ← (reading.format.rows content).mapError fun cause => .table (.malformed path cause)
    (Table.assemble rows reading.format.signature (.file path)).mapError QueryError.table

/-- The number of processes that the content of a file lists. -/
def countOfContent (path : Path) (content : Text) : Except QueryError Answer :=
  (fun pids => .scalar (.int4 (Signed.clamp 32 pids.length))) <$>
    (CgroupState.pidsOf content).mapError fun cause => .table (.malformed path cause)

variable {files : FileTree} {enabled : Bool} {isDirectory : Path → Prop} {name : Text} {off : Answer}
  {answerOf : Path → Text → Except QueryError Answer}

/-- A resolved path is read, or the error of reading it ends the query. -/
theorem confined_read {directory path : Path} (hne : directory.text ≠ []) (hd : isDirectory directory)
    (hp : files.resolveUnder directory name = .ok path) :
    Confined files enabled isDirectory name off answerOf
      ((files.readText path).mapError (QueryError.read path) >>= answerOf path) := by
  cases hr : files.readText path with
  | error fault => exact .refused _ rfl
  | ok content => exact .read directory path content hd hp hr (FileTree.holdsUnder_of_read hne hp hr)

theorem confined_readFile {reading : Reading} {directory path : Path} (hne : directory.text ≠ [])
    (hd : isDirectory directory) (hp : files.resolveUnder directory name = .ok path) :
    Confined files enabled isDirectory name reading.off (answerOfContent reading)
      (readFile files reading (some path)) := by
  have hfile : readFile files reading (some path) =
      (files.readText path).mapError (QueryError.read path) >>= answerOfContent reading path := by
    simp only [readFile, readTable]
    cases files.readText path with
    | error fault => rfl
    | ok content => rfl
  rw [hfile]
  exact confined_read hne hd hp

/-- The check of declared columns ends a query by itself, or leaves the answer as it is. -/
theorem execute_confined {machine : Machine} {context : Context} {query : Query} (expected : Option Signature)
    (h : Confined files enabled isDirectory name off answerOf (query.answer machine context)) :
    Confined files enabled isDirectory name off answerOf (query.execute machine context expected) := by
  unfold execute
  split
  · exact h
  · split
    · exact h
    · exact .refused _ rfl

/-! ## Query by query -/

theorem filePath_refuses {state : CgroupState} {e : QueryError} (h : state.filePath files name = .error e) :
    e.quotesContent = false := by
  rcases bind_eq_error.mp h with h | ⟨⟨⟩, -, h⟩
  · obtain ⟨cause, -, rfl⟩ := mapError_eq_error.mp h
    rfl
  · split at h
    · cases h; rfl
    · split at h
      · cases h; rfl
      · obtain ⟨cause, -, rfl⟩ := mapError_eq_error.mp h
        rfl

theorem cgroupFile_confined {machine : Machine} {context : Context} (ha : context.Anchored)
    (expected : Option Signature) (view : CgroupView) (name : Text) :
    Confined machine.files context.cgroup.isEnabled (context.cgroup.DirectoryOf name) name view.reading.off
      (answerOfContent view.reading) (execute machine context expected (.cgroupFile view name)) := by
  apply execute_confined
  simp only [answer, cgroupPath?]
  cases hc : checkFilename name with
  | error cause => exact .refused (.accessDenied cause) rfl
  | ok =>
    cases he : context.cgroup.isEnabled with
    | false => exact .off rfl
    | true =>
      cases hf : context.cgroup.filePath machine.files name with
      | error e => exact .refused e (filePath_refuses hf)
      | ok path =>
        obtain ⟨directory, hd, hp⟩ := CgroupState.filePath_eq_ok_iff.mp hf
        exact confined_readFile (ha.directory_ne_empty hd) hd hp

theorem podinfoFile_confined {machine : Machine} {context : Context} (ha : context.Anchored)
    (expected : Option Signature) (view : PodinfoView) (name : Text) :
    Confined machine.files context.podinfoEnabled (· = context.podinfoPath) name view.reading.off
      (answerOfContent view.reading) (execute machine context expected (.podinfoFile view name)) := by
  apply execute_confined
  simp only [answer, podinfoPath?]
  cases hc : checkFilename name with
  | error cause => exact .refused (.accessDenied cause) rfl
  | ok =>
    cases he : context.podinfoEnabled with
    | false => exact .off rfl
    | true =>
      cases hp : machine.files.resolveUnder context.podinfoPath name with
      | error cause => exact .refused (.accessDenied cause) rfl
      | ok path =>
        exact confined_readFile (ha.podinfo he) rfl hp

theorem processCount_of_path {context : Context} {path : Path} (he : context.cgroup.isEnabled = true)
    (hf : context.cgroup.filePath files CgroupState.processesFile = .ok path) :
    Answer.scalar <$> processCount files context =
      (files.readText path).mapError (QueryError.read path) >>= countOfContent path := by
  simp only [processCount, CgroupState.memberPids, he, hf, if_true, bind, Except.bind]
  cases files.readText path with
  | error fault => rfl
  | ok content =>
    simp only [countOfContent, Except.mapError]
    cases CgroupState.pidsOf content with
    | error cause => rfl
    | ok pids => rfl

theorem cgroupProcessCount_confined {machine : Machine} {context : Context} (ha : context.Anchored)
    (expected : Option Signature) :
    Confined machine.files context.cgroup.isEnabled (context.cgroup.DirectoryOf CgroupState.processesFile)
      CgroupState.processesFile (.scalar .null) countOfContent
      (execute machine context expected .cgroupProcessCount) := by
  apply execute_confined
  cases he : context.cgroup.isEnabled with
  | false =>
    simp only [answer, processCount, he]
    exact .off rfl
  | true =>
    cases hf : context.cgroup.filePath machine.files CgroupState.processesFile with
    | error e =>
      simp only [answer, processCount, CgroupState.memberPids, he, hf]
      exact .refused e (filePath_refuses hf)
    | ok path =>
      obtain ⟨directory, hd, hp⟩ := CgroupState.filePath_eq_ok_iff.mp hf
      rw [answer, processCount_of_path he hf]
      exact confined_read (ha.directory_ne_empty hd) hd hp

/-! ## Files and queries -/

/-- A name is resolved to the joined path, and what is read there lies at or below the directory; a
    name that leads outside is refused. A cgroup name is resolved under the directory of the text before its
    first point, and an answer to a query is made of files under its directory or of none. -/
theorem files_confined :
    (∀ (files : FileTree) (directory path : Path) (name : Text),
      files.resolveUnder directory name = .ok path ↔
        path = directory.join name ∧ checkFilename name = .ok () ∧
          ∀ base location, files.canonical directory = .ok base → files.canonical path = .ok location →
            base <+: location) ∧
    (∀ (files : FileTree) (directory path : Path) (name content : Text), directory.text ≠ [] →
      files.resolveUnder directory name = .ok path → files.readText path = .ok content →
        ∃ base location bytes, files.canonical directory = .ok base ∧ files.canonical path = .ok location ∧
          base <+: location ∧ files.entry? location = some (.file bytes) ∧ Utf8.decodeLossy bytes = content) ∧
    (∀ (files : FileTree) (directory : Path) (name : Text) (location : Location), directory.text ≠ [] →
      checkFilename name = .ok () → files.canonical (directory.join name) = .ok location →
      (∀ base, files.canonical directory = .ok base → ¬ base <+: location) →
        ∃ base, files.canonical directory = .ok base ∧
          files.resolveUnder directory name = .error (.outsideRoot location.path base.path)) ∧
    (∀ (files : FileTree) (state : CgroupState) (name : Text) (path : Path),
      state.filePath files name = .ok path ↔
        ∃ directory, state.DirectoryOf name directory ∧ files.resolveUnder directory name = .ok path) ∧
    (∀ (machine : Machine) (context : Context) (expected : Option Signature), context.Anchored →
      (∀ view name, Confined machine.files context.cgroup.isEnabled (context.cgroup.DirectoryOf name) name
        view.reading.off (answerOfContent view.reading) (execute machine context expected (.cgroupFile view name))) ∧
      (∀ view name, Confined machine.files context.podinfoEnabled (· = context.podinfoPath) name
        view.reading.off (answerOfContent view.reading) (execute machine context expected (.podinfoFile view name))) ∧
      Confined machine.files context.cgroup.isEnabled (context.cgroup.DirectoryOf CgroupState.processesFile)
        CgroupState.processesFile (.scalar .null) countOfContent
        (execute machine context expected .cgroupProcessCount) ∧
      ∀ other : Machine, ∀ query ∈ [Query.cgroupMode, .cgroupPaths],
        execute machine context expected query = execute other context expected query) ∧
    ∀ (files : FileTree) (config : Config), (Context.ofConfig files config).1.Anchored := by
  refine ⟨?_, ?_, ?_, ?_, ?_, Context.ofConfig_anchored⟩
  · intro files directory path name
    exact FileTree.resolveUnder_eq_ok_iff
  · intro files directory path name content hne h hr
    exact FileTree.readText_under hne h hr
  · intro files directory name location hne hc hl hout
    exact FileTree.resolveUnder_outside hne hc hl hout
  · intro files state name path
    exact CgroupState.filePath_eq_ok_iff
  · intro machine context expected ha
    refine ⟨cgroupFile_confined ha expected, podinfoFile_confined ha expected,
      cgroupProcessCount_confined ha expected, ?_⟩
    -- the mode and the directories come from the context alone
    intro other query hq
    rcases List.mem_pair.mp hq with rfl | rfl
    · rfl
    · rfl

/-- A cgroup directory reached by a link, with a file in it and a link that leads out of it. -/
def linkedFiles : FileTree where
  entries := [(["cg".toList], .directory), (["cg".toList, "memory.stat".toList], .file (Utf8.encode "anon 1\n".toList)),
    (["cg".toList, "memory.leak".toList], .link "../etc/key".toList), (["etc".toList], .directory),
    (["etc".toList, "key".toList], .file (Utf8.encode "secret\n".toList)), (["run".toList], .link "/cg".toList)]
  workingDirectory := []

def linkedContext : Context where
  cgroup := ⟨.unified, false, .ofString "/run", ⟨[("memory".toList, .ofString "/run")]⟩⟩
  podinfoEnabled := false
  podinfoPath := .ofString "/podinfo"
  procEnabled := false
  procRoot := .ofString "/proc"

theorem linkedContext_anchored : linkedContext.Anchored := ⟨by decide, by decide⟩

/-- The file is read where it lies, the link out of the directory is refused, and so is a query of it. -/
theorem linked_files_confined :
    (∃ location bytes, linkedFiles.canonical (.ofString "/run/memory.stat") = .ok location ∧
      ["cg".toList] <+: location ∧ linkedFiles.entry? location = some (.file bytes)) ∧
    linkedFiles.resolveUnder (.ofString "/run") "memory.leak".toList =
      .error (.outsideRoot (.ofString "/etc/key") (.ofString "/cg")) ∧
    Confined linkedFiles true (linkedContext.cgroup.DirectoryOf "memory.leak".toList) "memory.leak".toList
      (.table (Table.empty [.text, .int8])) (answerOfContent CgroupView.keyValues.reading)
      (execute (.ofFiles linkedFiles []) linkedContext none (.cgroupFile .keyValues "memory.leak".toList)) := by
  obtain ⟨-, inside, outside, -, queries, -⟩ := files_confined
  have hroot : linkedFiles.canonical (.ofString "/run") = .ok ["cg".toList] := rfl
  refine ⟨?_, ?_, (queries (.ofFiles linkedFiles []) linkedContext none linkedContext_anchored).1 .keyValues _⟩
  · obtain ⟨base, location, bytes, hbase, hl, hp, he, -⟩ := inside linkedFiles (.ofString "/run")
      (.ofString "/run/memory.stat") "memory.stat".toList "anon 1\n".toList (by decide) rfl rfl
    rw [hroot] at hbase
    cases hbase
    exact ⟨location, bytes, hl, hp, he⟩
  · have hout : ∀ base, linkedFiles.canonical (.ofString "/run") = .ok base →
        ¬ base <+: ["etc".toList, "key".toList] := by
      intro base hbase
      rw [hroot] at hbase
      cases hbase
      decide
    obtain ⟨base, hbase, hrefused⟩ := outside linkedFiles (.ofString "/run") "memory.leak".toList
      ["etc".toList, "key".toList] (by decide) rfl rfl hout
    rw [hroot] at hbase
    cases hbase
    exact hrefused

end Query

end HostTables
