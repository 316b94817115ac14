/-
  HostTables.Proofs.Query.SwitchedOff — a subsystem that is off does not look like one that is broken.

  Most queries are about a subsystem (`subsystem?`) that a context has on or off. While it is off
  the answer comes from the query alone (`offAnswer`): a file name that fails its check is
  refused, otherwise a query for a value answers with null and one for a table with the table of
  its columns without rows. While it is on, no answer is a table without rows, since assembling
  one is an error; nor is any answer null, but for an array that is read from a line without
  tokens (`ReadsNoToken`). `off_is_not_broken` has both sides.

  Whatever a step reads, what it ends in is filled (`Filled`); there is one lemma for each source
  of answers, and `answer_filled` puts them together.
-/
import HostTables.Machine.Observed
import HostTables.Proofs.Query.Schema
import HostTables.Proofs.Table.Filled
import HostTables.Query.Execute

namespace HostTables

/-! ## Subsystems -/

/-- What a context has on or off. -/
inductive Subsystem where
  | cgroup
  | podinfo
  | procfs
  deriving DecidableEq, Repr

def Context.isOn (context : Context) : Subsystem → Bool
  | .cgroup => context.cgroup.isEnabled
  | .podinfo => context.podinfoEnabled
  | .procfs => context.procEnabled

def Reading.isTable : Reading → Bool
  | .table _ => true
  | .value _ | .array _ => false

namespace Query

/-- The subsystem that the query is about. The mode is always known, and the environment and the
    page size belong to no subsystem. -/
def subsystem? : Query → Option Subsystem
  | .cgroupPaths | .cgroupProcessCount | .cgroupFile .. => some .cgroup
  | .podinfoFile .. => some .podinfo
  | .procFile _ | .children .. | .fileSystem _ => some .procfs
  | .cgroupMode | .variableText _ | .variableBigint _ | .pagesToBytes _ => none

/-- The name that the caller gives of a file under a directory. -/
def fileName? : Query → Option Text
  | .cgroupFile _ name | .podinfoFile _ name => some name
  | _ => none

/-- Whether the answer is a table and not a single value. -/
def isTable : Query → Bool
  | .cgroupPaths | .procFile _ | .children .. | .fileSystem _ => true
  | .cgroupFile view _ => view.reading.isTable
  | .podinfoFile view _ => view.reading.isTable
  | .cgroupMode | .cgroupProcessCount | .variableText _ | .variableBigint _ | .pagesToBytes _ => false

/-- The answer that holds nothing. -/
def emptyAnswer (query : Query) : Answer :=
  if query.isTable then .table (Table.empty query.signature) else .scalar .null

/-- The answer while the subsystem is off. -/
def offAnswer (query : Query) : Except QueryError Answer :=
  match query.fileName?.map checkFilename with
  | some (.error cause) => .error (.accessDenied cause)
  | some (.ok ()) | none => .ok query.emptyAnswer

/-- The query asks for an array, and the only line of its file has no token. -/
def ReadsNoToken (files : FileTree) (context : Context) : Query → Prop
  | .cgroupFile view name => (view = .bigintArray ∨ view = .textArray) ∧
      ∃ path content line, context.cgroup.filePath files name = .ok path ∧ files.readText path = .ok content ∧
        Text.lines content = [line] ∧ Text.tokens line = []
  | _ => False

theorem execute_eq_answer {machine : Machine} {context : Context} {query : Query} {expected : Option Signature}
    (h : ∀ columns ∈ expected, columns = query.signature) :
    query.execute machine context expected = query.answer machine context := by
  cases expected with
  | none => rfl
  | some columns => exact if_pos (h columns rfl)

/-! ## Off -/

theorem offAnswer_of_check {query : Query} (name : Text) (hn : query.fileName? = some name) :
    query.offAnswer = (checkFilename name).mapError QueryError.accessDenied >>= fun _ => .ok query.emptyAnswer := by
  rw [offAnswer, hn]
  cases hc : checkFilename name with
  | error cause => simp [hc, Except.mapError, bind, Except.bind]
  | ok => simp [hc, Except.mapError, bind, Except.bind]

theorem off_eq_emptyAnswer {query : Query} (reading : Reading) (hs : query.signature = reading.signature)
    (ht : query.isTable = reading.isTable) : reading.off = query.emptyAnswer := by
  rw [emptyAnswer, hs, ht]
  cases reading <;> rfl

/-- While its subsystem is off a query reads nothing: its answer is known without the machine. -/
theorem answer_of_off {machine : Machine} {context : Context} {query : Query} {subsystem : Subsystem}
    (hq : query.subsystem? = some subsystem) (hoff : context.isOn subsystem = false) :
    query.answer machine context = query.offAnswer := by
  cases query with
  | cgroupPaths =>
    cases hq
    have hoff : context.cgroup.isEnabled = false := hoff
    simp only [answer, cgroupTable, hoff]
    rfl
  | cgroupProcessCount =>
    cases hq
    have hoff : context.cgroup.isEnabled = false := hoff
    simp only [answer, processCount, hoff]
    rfl
  | cgroupFile view name =>
    cases hq
    have hoff : context.cgroup.isEnabled = false := hoff
    rw [offAnswer_of_check name rfl, ← off_eq_emptyAnswer view.reading (signature_cgroupFile view name) rfl]
    simp only [answer, cgroupPath?, hoff]
    cases checkFilename name <;> rfl
  | podinfoFile view name =>
    cases hq
    have hoff : context.podinfoEnabled = false := hoff
    rw [offAnswer_of_check name rfl, ← off_eq_emptyAnswer view.reading (signature_podinfoFile view name) rfl]
    simp only [answer, podinfoPath?, hoff]
    cases checkFilename name <;> rfl
  | procFile file =>
    cases hq
    have hoff : context.procEnabled = false := hoff
    simp only [answer, procTable, hoff, ← signature_procFile file]
    rfl
  | children facet parent =>
    cases hq
    have hoff : context.procEnabled = false := hoff
    simp only [answer, childrenTable, hoff, ← signature_children facet parent]
    rfl
  | fileSystem path =>
    cases hq
    have hoff : context.procEnabled = false := hoff
    simp only [answer, fileSystemTable, hoff]
    rfl
  | cgroupMode => cases hq
  | variableText name => cases hq
  | variableBigint name => cases hq
  | pagesToBytes pages => cases hq

end Query

/-! ## On -/

/-- The table has rows, the value is not null. -/
def Answer.Filled : Answer → Prop
  | .scalar value => value ≠ .null
  | .table typed => typed.rows ≠ []

/-- A value with the property, or some error. -/
abbrev Gives {α ε : Type} (P : α → Prop) (x : Except ε α) : Prop := Ends P (fun _ => True) x

theorem gives_of_ok {α ε : Type} {P : α → Prop} {x : Except ε α} (h : ∀ a, x = .ok a → P a) : Gives P x := by
  cases x with
  | error e => trivial
  | ok a => exact h a rfl

theorem gives_true {α ε : Type} (x : Except ε α) : Gives (fun _ => True) x := gives_of_ok fun _ _ => trivial

theorem assemble_gives_rows (rows : List Row) (signature : Signature) (path : Path) :
    Gives (fun table => table.rows ≠ []) ((Table.assemble rows signature (.file path)).mapError QueryError.table) :=
  gives_of_ok fun _ h => Table.assemble_rows_ne_nil (mapError_eq_ok.mp h)

namespace Query

theorem readTable_eq_ok_iff {files : FileTree} {path : Path} {format : Format} {table : Table} :
    readTable files path format = .ok table ↔
      ∃ content rows, files.readText path = .ok content ∧ format.rows content = .ok rows ∧
        Table.assemble rows format.signature (.file path) = .ok table := by
  simp only [readTable, bind_eq_ok, mapError_eq_ok]
  constructor
  · rintro ⟨content, hread, rows, hrows, htable⟩
    exact ⟨content, rows, hread, hrows, htable⟩
  · rintro ⟨content, rows, hread, hrows, htable⟩
    exact ⟨content, hread, rows, hrows, htable⟩

theorem readTable_gives_rows (files : FileTree) (path : Path) (format : Format) :
    Gives (fun table => table.rows ≠ []) (readTable files path format) := by
  refine gives_of_ok fun table h => ?_
  obtain ⟨content, rows, -, -, htable⟩ := readTable_eq_ok_iff.mp h
  exact Table.assemble_rows_ne_nil htable

/-- The value of a one-line file is made of a token. -/
theorem readTable_gives_value (files : FileTree) (path : Path) (type : ColumnType) :
    Gives (fun table => table.firstValue ≠ .null) (readTable files path (.scalar type)) := by
  refine gives_of_ok fun table h => ?_
  obtain ⟨content, rows, -, hrows, htable⟩ := readTable_eq_ok_iff.mp h
  obtain ⟨line, -, hrows⟩ := bind_eq_ok.mp hrows
  cases hrows
  obtain ⟨value, hvalue, rfl⟩ := Table.assemble_cell_iff.mp htable
  have hcell : Cell.token line ≠ .null := nofun
  exact coerce_ne_null hcell hvalue

/-- An array is null exactly when the only line of its file has no token. -/
theorem readFile_array_eq_null_iff {files : FileTree} {path : Path} {type : ColumnType} (harray : type.isArray = true) :
    readFile files (.array type) (some path) = .ok (.scalar .null) ↔
      ∃ content line, files.readText path = .ok content ∧ Text.lines content = [line] ∧ Text.tokens line = [] := by
  simp only [readFile, map_eq_ok]
  constructor
  · rintro ⟨table, htable, hnull⟩
    obtain ⟨content, rows, hread, hrows, htable⟩ := readTable_eq_ok_iff.mp htable
    obtain ⟨line, hline, hrows⟩ := bind_eq_ok.mp hrows
    cases hrows
    obtain ⟨value, hvalue, rfl⟩ := Table.assemble_cell_iff.mp htable
    have hvalue_null : value.nullIfEmpty = .null := Answer.scalar.inj hnull
    exact ⟨content, line, hread, Format.singleLine_eq_ok_iff.mp hline, (nullIfEmpty_of_list hvalue).mp hvalue_null⟩
  · rintro ⟨content, line, hread, hline, htokens⟩
    obtain ⟨value, hvalue⟩ := coerce_nil harray
    have hrows : (Format.array type).rows content = .ok [[.list []]] := by
      rw [Format.rows, Format.singleLine_eq_ok_iff.mpr hline, ← htokens]
      rfl
    refine ⟨⟨[type], [[value]]⟩, readTable_eq_ok_iff.mpr ⟨content, [[.list []]], hread, hrows, ?_⟩, ?_⟩
    · exact Table.assemble_cell_iff.mpr ⟨value, hvalue, rfl⟩
    · exact congrArg Answer.scalar ((nullIfEmpty_of_list hvalue).mpr rfl)

theorem readFile_gives_filled {files : FileTree} {reading : Reading} (hr : ∀ type, reading ≠ .array type)
    (path : Path) : Gives Answer.Filled (readFile files reading (some path)) := by
  cases reading with
  | value type => exact .map (readTable_gives_value files path type) fun _ h => h
  | array type => exact absurd rfl (hr type)
  | table format => exact .map (readTable_gives_rows files path format) fun _ h => h

/-- With cgroups on, the path of a file is that of its name. -/
theorem cgroupPath?_of_on {files : FileTree} {context : Context} (hon : context.cgroup.isEnabled = true)
    (name : Text) : cgroupPath? files context name = some <$> context.cgroup.filePath files name := by
  simp only [cgroupPath?, CgroupState.filePath, hon, if_true]
  cases checkFilename name <;> rfl

theorem podinfoPath?_of_on {files : FileTree} {context : Context} (hon : context.podinfoEnabled = true)
    (name : Text) :
    podinfoPath? files context name =
      some <$> (files.resolveUnder context.podinfoPath name).mapError QueryError.accessDenied := by
  simp only [podinfoPath?, FileTree.resolveUnder, hon, if_true]
  cases checkFilename name <;> rfl

/-! ## Query by query -/

/-- The query asks for an array. -/
def IsArray : Query → Prop
  | .cgroupFile view _ => view = .bigintArray ∨ view = .textArray
  | _ => False

theorem reading_of_array {view : CgroupView} (h : view = .bigintArray ∨ view = .textArray) :
    ∃ type, view.reading = .array type ∧ type.isArray = true := by
  rcases h with rfl | rfl
  · exact ⟨.int8Array, rfl, rfl⟩
  · exact ⟨.textArray, rfl, rfl⟩

theorem reading_ne_array {view : CgroupView} (h : ¬ (view = .bigintArray ∨ view = .textArray)) (type : ColumnType) :
    view.reading ≠ .array type := by
  cases view with
  | bigintArray => exact absurd (Or.inl rfl) h
  | textArray => exact absurd (Or.inr rfl) h
  | bigint | float8 | text | bigintSet | textSet | keyValues | keySubkeyValues | nestedKeyValues => nofun

/-- Without an array asked for, an answer of a subsystem that is on is filled. -/
theorem answer_filled (machine : Machine) {context : Context} {query : Query} {subsystem : Subsystem}
    (hq : query.subsystem? = some subsystem) (hon : context.isOn subsystem = true) (hnot : ¬ query.IsArray) :
    Gives Answer.Filled (query.answer machine context) := by
  cases query with
  | cgroupPaths =>
    cases hq
    have hon : context.cgroup.isEnabled = true := hon
    simp only [answer, cgroupTable, hon, if_true]
    exact .map (assemble_gives_rows _ _ _) fun _ h => h
  | cgroupProcessCount =>
    cases hq
    have hon : context.cgroup.isEnabled = true := hon
    simp only [answer, processCount, hon, if_true]
    refine .map (P := fun value => value ≠ Value.null) (.bind (gives_true _) fun pids _ => ?_) fun _ h => h
    exact gives_of_ok fun value h => by cases h; nofun
  | cgroupFile view name =>
    cases hq
    have hpath : Gives (fun path => ∃ file, path = some file) (cgroupPath? machine.files context name) := by
      rw [cgroupPath?_of_on hon]
      exact .map (gives_true _) fun file _ => ⟨file, rfl⟩
    refine .bind hpath ?_
    rintro _ ⟨file, rfl⟩
    exact readFile_gives_filled (reading_ne_array hnot) file
  | podinfoFile view name =>
    cases hq
    have hpath : Gives (fun path => ∃ file, path = some file) (podinfoPath? machine.files context name) := by
      rw [podinfoPath?_of_on hon]
      exact .map (gives_true _) fun file _ => ⟨file, rfl⟩
    refine .bind hpath ?_
    rintro _ ⟨file, rfl⟩
    exact readFile_gives_filled (fun type => by cases view <;> nofun) file
  | procFile file =>
    cases hq
    have hon : context.procEnabled = true := hon
    simp only [answer, procTable, hon, if_true]
    exact .map (readTable_gives_rows _ _ _) fun _ h => h
  | children facet parent =>
    cases hq
    have hon : context.procEnabled = true := hon
    simp only [answer, childrenTable, hon, if_true]
    refine .map (.bind (gives_true _) fun content _ => ?_) fun _ h => h
    exact .bind (gives_true _) fun rows _ => assemble_gives_rows rows _ _
  | fileSystem path =>
    cases hq
    have hon : context.procEnabled = true := hon
    simp only [answer, fileSystemTable, hon, if_true]
    exact .map (.bind (gives_true _) fun info _ => assemble_gives_rows [info.row] _ _) fun _ h => h
  | cgroupMode => cases hq
  | variableText name => cases hq
  | variableBigint name => cases hq
  | pagesToBytes pages => cases hq

/-- An array is a value, and it is null exactly when its line has no token. -/
theorem answer_of_array (machine : Machine) {context : Context} {query : Query} (harray : query.IsArray)
    (hon : context.cgroup.isEnabled = true) :
    Gives (fun answer => ∃ value, answer = .scalar value) (query.answer machine context) ∧
    (query.answer machine context = .ok (.scalar .null) ↔ query.ReadsNoToken machine.files context) := by
  cases query with
  | cgroupFile view name =>
    obtain ⟨type, hview, htype⟩ := reading_of_array harray
    simp only [answer, cgroupPath?_of_on hon, hview]
    constructor
    · refine .bind (gives_true _) fun path _ => ?_
      cases path with
      | none => exact ⟨.null, rfl⟩
      | some path => exact .map (gives_true _) fun table _ => ⟨table.firstValue.nullIfEmpty, rfl⟩
    · simp only [bind_eq_ok, map_eq_ok, ReadsNoToken]
      constructor
      · rintro ⟨_, ⟨path, hpath, rfl⟩, hnull⟩
        obtain ⟨content, line, hline⟩ := (readFile_array_eq_null_iff htype).mp hnull
        exact ⟨harray, path, content, line, hpath, hline⟩
      · rintro ⟨-, path, content, line, hpath, hline⟩
        exact ⟨some path, ⟨path, hpath, rfl⟩, (readFile_array_eq_null_iff htype).mpr ⟨content, line, hline⟩⟩
  | cgroupMode | cgroupPaths | cgroupProcessCount => exact harray.elim
  | podinfoFile | variableText | variableBigint | procFile | children | fileSystem | pagesToBytes => exact harray.elim

theorem isOn_cgroup_of_array {context : Context} {query : Query} {subsystem : Subsystem} (harray : query.IsArray)
    (hq : query.subsystem? = some subsystem) (hon : context.isOn subsystem = true) :
    context.cgroup.isEnabled = true := by
  cases query with
  | cgroupFile view name =>
    cases hq
    exact hon
  | cgroupMode | cgroupPaths | cgroupProcessCount => exact harray.elim
  | podinfoFile | variableText | variableBigint | procFile | children | fileSystem | pagesToBytes => exact harray.elim

theorem answer_of_on (machine : Machine) {context : Context} {query : Query} {subsystem : Subsystem}
    (hq : query.subsystem? = some subsystem) (hon : context.isOn subsystem = true) :
    (∀ table, query.answer machine context = .ok (.table table) → table.rows ≠ []) ∧
    (query.answer machine context = .ok (.scalar .null) ↔ query.ReadsNoToken machine.files context) := by
  by_cases harray : query.IsArray
  · obtain ⟨hscalar, hnull⟩ := answer_of_array machine harray (isOn_cgroup_of_array harray hq hon)
    refine ⟨fun table h => ?_, hnull⟩
    obtain ⟨value, hvalue⟩ := hscalar.of_ok h
    cases hvalue
  · have hfilled := answer_filled machine hq hon harray
    refine ⟨fun table h => hfilled.of_ok h, fun h => absurd rfl (hfilled.of_ok h), fun h => ?_⟩
    cases query with
    | cgroupFile view name => exact absurd h.1 harray
    | cgroupMode | cgroupPaths | cgroupProcessCount => exact h.elim
    | podinfoFile | variableText | variableBigint | procFile | children | fileSystem | pagesToBytes => exact h.elim

/-- With its subsystem off, a query has its `offAnswer` whatever the machine is; with it on, no answer is
    a table without rows, and only an array read from a line without tokens is null. The mode is answered
    in every context. -/
theorem off_is_not_broken :
    (∀ (machine : Machine) (context : Context) (query : Query) (subsystem : Subsystem) (expected : Option Signature),
      query.subsystem? = some subsystem → (∀ columns ∈ expected, columns = query.signature) →
      (context.isOn subsystem = false → query.execute machine context expected = query.offAnswer) ∧
      (context.isOn subsystem = true →
        (∀ table, query.execute machine context expected = .ok (.table table) → table.rows ≠ []) ∧
        (query.execute machine context expected = .ok (.scalar .null) ↔ query.ReadsNoToken machine.files context))) ∧
    ∀ (machine : Machine) (context : Context) (expected : Option Signature),
      (∀ columns ∈ expected, columns = Query.cgroupMode.signature) →
      ∃ t, Query.cgroupMode.execute machine context expected = .ok (.scalar (.text t)) := by
  refine ⟨?_, ?_⟩
  · intro machine context query subsystem expected hq hexpected
    rw [execute_eq_answer hexpected]
    exact ⟨fun hoff => answer_of_off hq hoff, fun hon => answer_of_on machine hq hon⟩
  · intro machine context expected hexpected
    rw [execute_eq_answer hexpected]
    exact ⟨_, rfl⟩

/-- A cgroup with a list of processors that is blank and a statistics file that is empty. -/
def blankMachine : Machine :=
  .ofFiles ⟨[(["cg".toList], .directory), (["cg".toList, "cpuset.cpus".toList], .file (Utf8.encode "  \n".toList)),
    (["cg".toList, "cpuset.stat".toList], .file [])], []⟩ []

def blankContext : Context where
  cgroup := ⟨.unified, false, .ofString "/cg", ⟨[("cpuset".toList, .ofString "/cg")]⟩⟩
  podinfoEnabled := false
  podinfoPath := .ofString "/podinfo"
  procEnabled := false
  procRoot := .ofString "/proc"

def processorsQuery : Query := .cgroupFile .textArray "cpuset.cpus".toList

/-- On, the blank list is null and the empty file is no table; off, labels are an empty table unless
    their name is refused. -/
theorem blank_list_is_null :
    processorsQuery.execute blankMachine blankContext (some [.textArray]) = .ok (.scalar .null) ∧
    (∀ table, Query.execute blankMachine blankContext none (.cgroupFile .keyValues "cpuset.stat".toList) =
      .ok (.table table) → table.rows ≠ []) ∧
    Query.execute blankMachine blankContext none (.podinfoFile .keyValues "labels".toList) =
      .ok (.table (Table.empty [.text, .text])) ∧
    Query.execute blankMachine blankContext none (.podinfoFile .keyValues "../labels".toList) =
      .error (.accessDenied (.parentReference "../labels".toList)) ∧
    ∃ t, Query.cgroupMode.execute blankMachine blankContext none = .ok (.scalar (.text t)) := by
  obtain ⟨queries, mode⟩ := off_is_not_broken
  have hnone : ∀ query : Query, ∀ columns ∈ (none : Option Signature), columns = query.signature := by
    intro query columns h
    cases h
  have hblank : processorsQuery.ReadsNoToken blankMachine.files blankContext :=
    ⟨Or.inr rfl, .ofString "/cg/cpuset.cpus", "  \n".toList, "  ".toList, by decide, by decide, by decide, by decide⟩
  refine ⟨?_, ?_, ?_, ?_, mode _ _ none (hnone _)⟩
  · refine ((queries blankMachine blankContext processorsQuery .cgroup _ rfl fun columns h => ?_).2 rfl).2.mpr hblank
    cases h
    rfl
  · exact ((queries blankMachine blankContext _ .cgroup none rfl (hnone _)).2 rfl).1
  · exact (queries blankMachine blankContext _ .podinfo none rfl (hnone _)).1 rfl
  · exact (queries blankMachine blankContext _ .podinfo none rfl (hnone _)).1 rfl

end Query

end HostTables
