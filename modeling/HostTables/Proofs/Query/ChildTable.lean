/-
  HostTables.Proofs.Query.ChildTable — the table of a process's children, and whom it blames when there is none.

  A query about the counters or the state of children reads one file of each (`ChildFile`), `io` or `stat` in the
  child's directory under the procfs root. A child holds a row when its file can be read and has one (`Holds`);
  otherwise it has a fault that names this file (`Fault`). The children are gone through in the order of the
  list, and typed when all of them are there, so there are two phases: the first child with a fault ends the
  first (`FirstFailing`), whatever the cells of those before it are, and only then is a row looked at cell by
  cell (`execute_eq_table_iff`, `execute_eq_error_iff`). Going through the children is a numbered reading that
  ignores the numbers (`childRows_eq_eachNumbered`).

  `children_all_or_none`: there is a table exactly when the list is not empty and every child holds a row
  that can be typed, and it has one row for each child in order. `blame_is_right_iff_unparsed`: when data is
  reported as malformed, the path in the report is that of a file with bad data exactly when some child's
  file has no row; when all have one, the list of children is blamed (`list_blamed_for_counter`).
-/
import HostTables.Proofs.Machine.Walk
import HostTables.Proofs.Query.SwitchedOff
import HostTables.Proofs.Table.FirstFault

namespace HostTables

namespace ChildProcess

/-- The files of which a child has one, with a row in it. -/
inductive ChildFile where
  | io
  | stat
  deriving DecidableEq, Repr

namespace ChildFile

def facet : ChildFile → ProcessFacet
  | .io => .io
  | .stat => .stat

/-- The columns of the query. -/
def signature (file : ChildFile) : Signature := file.facet.signature

def name : ChildFile → String
  | .io => "io"
  | .stat => "stat"

/-- The file of its name in the directory that the child has under the procfs root. -/
def path (procRoot : Path) (pid : Text) (file : ChildFile) : Path := (procRoot.join pid).join file.name.toList

/-- The row that the content of a child's file stands for. -/
def row (pid content : Text) : ChildFile → Except ParseError Row
  | .io => Format.ProcessFile.ioRow pid content
  | .stat => Format.ProcessFile.statRow content

end ChildFile

/-! ## One child -/

section Children

variable (files : FileTree) (procRoot : Path) (file : ChildFile)

/-- The child's own file can be read, and these are its cells. -/
def Holds (pid : Text) (cells : Row) : Prop :=
  ∃ content, files.readText (file.path procRoot pid) = .ok content ∧ file.row pid content = .ok cells

/-- What is reported of a child whose file cannot be read or has no row. -/
inductive Fault (pid : Text) : QueryError → Prop
  | unread {fault : FileFault} : files.readText (file.path procRoot pid) = .error fault →
      Fault pid (.read (file.path procRoot pid) fault)
  | unparsed {content : Text} {cause : ParseError} : files.readText (file.path procRoot pid) = .ok content →
      file.row pid content = .error cause → Fault pid (.table (.malformed (file.path procRoot pid) cause))

/-- The report is that of the first child that has one; all children before it hold a row. -/
def FirstFailing (pids : List Text) (e : QueryError) : Prop :=
  ∃ (i : Nat) (pid : Text), pids[i]? = some pid ∧ Fault files procRoot file pid e ∧
    ∀ k < i, ∀ earlier : Text, pids[k]? = some earlier → ∃ cells, Holds files procRoot file earlier cells

end Children

variable {machine : Machine} {procRoot : Path} {file : ChildFile} {pid : Text} {pids : List Text}

theorem Holds.unique {files : FileTree} {cells cells' : Row} (h : Holds files procRoot file pid cells)
    (h' : Holds files procRoot file pid cells') : cells = cells' := by
  obtain ⟨content, hread, hrow⟩ := h
  obtain ⟨content', hread', hrow'⟩ := h'
  rw [hread] at hread'
  cases hread'
  rw [hrow] at hrow'
  exact Except.ok.inj hrow'

/-- What is read for a child is the file of its name. -/
theorem childRow_eq (machine : Machine) (procRoot : Path) (file : ChildFile) (pid : Text) :
    childRow machine procRoot file.facet pid = rowOf machine.files (file.path procRoot pid) (file.row pid) := by
  cases file <;> rfl

theorem childRow_eq_ok_iff {cells : Row} :
    childRow machine procRoot file.facet pid = .ok cells ↔ Holds machine.files procRoot file pid cells := by
  rw [childRow_eq, rowOf]
  cases hread : machine.files.readText (file.path procRoot pid) with
  | error fault => simp [Holds, hread]
  | ok content => simp [Holds, hread, mapError_eq_ok]

theorem childRow_eq_error_iff {e : QueryError} :
    childRow machine procRoot file.facet pid = .error e ↔ Fault machine.files procRoot file pid e := by
  rw [childRow_eq, rowOf]
  constructor
  · intro h
    split at h
    · rename_i fault hread
      cases h
      exact .unread hread
    · rename_i content hread
      obtain ⟨cause, hcause, rfl⟩ := mapError_eq_error.mp h
      exact .unparsed hread hcause
  · intro h
    cases h with
    | unread hread => rw [hread]
    | unparsed hread hcause =>
      rw [hread]
      exact mapError_eq_error.mpr ⟨_, hcause, rfl⟩

/-! ## All children -/

/-- The number of a child is of no use to its row. -/
theorem childRows_eq_eachNumbered (machine : Machine) (procRoot : Path) (facet : ProcessFacet) (pids : List Text) :
    ∀ first, childRows machine procRoot facet pids =
      Format.eachNumbered (fun _ pid => childRow machine procRoot facet pid) first pids := by
  induction pids with
  | nil => intro first; rfl
  | cons pid rest ih =>
    intro first
    rw [childRows, Format.eachNumbered_cons, ih (first + 1)]

theorem childRows_eq_ok_iff {rows : List Row} : childRows machine procRoot file.facet pids = .ok rows ↔
    rows.length = pids.length ∧ ∀ (i : Nat) (pid : Text), pids[i]? = some pid →
      ∃ cells, rows[i]? = some cells ∧ Holds machine.files procRoot file pid cells := by
  simp only [childRows_eq_eachNumbered machine procRoot file.facet pids 1, Format.eachNumbered_eq_ok_iff_at,
    childRow_eq_ok_iff]

theorem childRows_eq_error_iff {e : QueryError} :
    childRows machine procRoot file.facet pids = .error e ↔ FirstFailing machine.files procRoot file pids e := by
  simp only [childRows_eq_eachNumbered machine procRoot file.facet pids 1, Format.eachNumbered_eq_error_iff_at,
    childRow_eq_ok_iff, childRow_eq_error_iff, FirstFailing]

/-- The children all hold a row exactly when none is the first with a fault. -/
theorem exists_childRows_iff : (∃ rows, childRows machine procRoot file.facet pids = .ok rows) ↔
    ∀ pid ∈ pids, ∃ cells, Holds machine.files procRoot file pid cells := by
  have hchild : ∀ (_ : Nat) (pid : Text), (∃ cells, childRow machine procRoot file.facet pid = .ok cells) ↔
      ∃ cells, Holds machine.files procRoot file pid cells := fun _ _ => exists_congr fun _ => childRow_eq_ok_iff
  rw [childRows_eq_eachNumbered machine procRoot file.facet pids 1]
  exact Format.exists_eachNumbered_iff hchild

/-- The list that the children of a query are taken from. -/
def listPath (machine : Machine) (context : Context) (parent : Option UInt32) : Path :=
  childrenPath context.procRoot ((parent.map UInt32.toNat).getD machine.parentPid)

/-- Procfs is on, the caller expects no other columns, and the list can be read and has these entries. -/
structure Listed (machine : Machine) (context : Context) (file : ChildFile) (parent : Option UInt32)
    (expected : Option Signature) (pids : List Text) : Prop where
  on : context.procEnabled = true
  expected : ∀ columns ∈ expected, columns = file.signature
  read : ∃ listing, machine.files.readText (listPath machine context parent) = .ok listing ∧
    Format.ProcessFile.children listing = pids

section Query

variable {context : Context} {parent : Option UInt32} {expected : Option Signature}

/-- The answer is made of the rows of the children listed. -/
theorem execute_of_listed (h : Listed machine context file parent expected pids) :
    (Query.children file.facet parent).execute machine context expected =
      Answer.table <$> (childRows machine context.procRoot file.facet pids >>= fun rows =>
        (Table.assemble rows file.signature (.file (listPath machine context parent))).mapError QueryError.table) := by
  obtain ⟨listing, hlist, hpids⟩ := h.read
  have hexpected : ∀ columns ∈ expected, columns = (Query.children file.facet parent).signature := by
    rw [Query.signature_children]
    exact h.expected
  unfold listPath at hlist ⊢
  rw [Query.execute_eq_answer hexpected]
  simp only [Query.answer, Query.childrenTable, h.on, if_true, childTable, hlist, ← hpids]
  rfl

theorem execute_eq_error_iff (h : Listed machine context file parent expected pids) {e : QueryError} :
    (Query.children file.facet parent).execute machine context expected = .error e ↔
      FirstFailing machine.files context.procRoot file pids e ∨
      ∃ rows, childRows machine context.procRoot file.facet pids = .ok rows ∧ ∃ cause,
        Table.assemble rows file.signature (.file (listPath machine context parent)) = .error cause ∧
          .table cause = e := by
  simp only [execute_of_listed h, map_eq_error, bind_eq_error, mapError_eq_error, childRows_eq_error_iff]

/-- A row is that of the child in its place. -/
theorem holds_of_row {rows : List Row} {cells : Row} {i : Nat} (h : childRows machine procRoot file.facet pids = .ok rows)
    (hcells : rows[i]? = some cells) : ∃ pid, pids[i]? = some pid ∧ Holds machine.files procRoot file pid cells := by
  obtain ⟨hlength, hholds⟩ := childRows_eq_ok_iff.mp h
  obtain ⟨hi, -⟩ := List.getElem?_eq_some_iff.mp hcells
  have hpid : pids[i]? = some pids[i] := List.getElem?_eq_getElem (hlength ▸ hi)
  obtain ⟨held, hplace, hheld⟩ := hholds i _ hpid
  obtain rfl : cells = held := Option.some.inj (hcells.symm.trans hplace)
  exact ⟨_, hpid, hheld⟩

/-- The first cell of a child's counters is its entry in the list. -/
theorem head_of_holds_io {files : FileTree} {cells : Row} (h : Holds files procRoot .io pid cells) :
    cells[0]? = some (.token pid) := by
  obtain ⟨content, -, hrow⟩ := h
  simp only [ChildFile.row, Format.ProcessFile.ioRow] at hrow
  split at hrow
  · obtain ⟨counters, -, hrow⟩ := bind_eq_ok.mp hrow
    cases hrow
    rfl
  · cases hrow

/-- All 52 fields of the state of process 7. -/
def soundState : Text := "7 (sh) S".toList ++ (List.replicate 49 " 0".toList).flatten

/-- The state of process 8, cut off behind its third field. -/
def truncatedState : Text := "8 (sh) S".toList

/-- A process 1 with the children listed, the counters and the state of process 7, and the state of process 8. -/
def familyFiles (listing counters : String) : FileTree where
  entries := [(["proc".toList], .directory), (["proc".toList, "1".toList], .directory),
    (["proc".toList, "1".toList, "task".toList], .directory),
    (["proc".toList, "1".toList, "task".toList, "1".toList], .directory),
    (["proc".toList, "1".toList, "task".toList, "1".toList, "children".toList], .file (Utf8.encode listing.toList)),
    (["proc".toList, "7".toList], .directory),
    (["proc".toList, "7".toList, "io".toList], .file (Utf8.encode counters.toList)),
    (["proc".toList, "7".toList, "stat".toList], .file (Utf8.encode soundState)),
    (["proc".toList, "8".toList], .directory),
    (["proc".toList, "8".toList, "stat".toList], .file (Utf8.encode truncatedState))]
  workingDirectory := []

def familyContext : Context where
  cgroup := ⟨.disabled, false, .ofString "/cg", ⟨[]⟩⟩
  podinfoEnabled := false
  podinfoPath := .ofString "/podinfo"
  procEnabled := true
  procRoot := .ofString "/proc"

def familyMachine (listing counters : String) : Machine := .ofFiles (familyFiles listing counters) []

/-- The counters of the children of process 1. -/
def familyCounters (listing counters : String) : Except QueryError Answer :=
  (Query.children .io (some 1)).execute (familyMachine listing counters) familyContext none

/-- The states of the children of process 1. -/
def familyStates (listing : String) : Except QueryError Answer :=
  (Query.children .stat (some 1)).execute (familyMachine listing "") familyContext none

/-- The counter `syscr` is no number. -/
def spoiltCounters : String :=
  "rchar: 1\nwchar: 2\nsyscr: x\nsyscw: 4\nread_bytes: 5\nwrite_bytes: 6\ncancelled_write_bytes: 7\n"

theorem familyFiles_listing (listing counters : String) :
    (familyFiles listing counters).readText (.ofString "/proc/1/task/1/children") = .ok listing.toList :=
  FileTree.readText_of_encode rfl

theorem familyFiles_counters (listing counters : String) :
    (familyFiles listing counters).readText (.ofString "/proc/7/io") = .ok counters.toList :=
  FileTree.readText_of_encode rfl

theorem familyFiles_truncated (listing counters : String) :
    (familyFiles listing counters).readText (.ofString "/proc/8/stat") = .ok truncatedState :=
  FileTree.readText_of_encode rfl

theorem family_listed (listing counters : String) (file : ChildFile) :
    Listed (familyMachine listing counters) familyContext file (some 1) none
      (Format.ProcessFile.children listing.toList) where
  on := rfl
  expected := nofun
  read := by
    have hpath : childrenPath (.ofString "/proc") 1 = .ofString "/proc/1/task/1/children" := by decide
    have hlist := familyFiles_listing listing counters
    rw [← hpath] at hlist
    exact ⟨_, hlist, rfl⟩

theorem holds_spoilt (listing : String) :
    ∃ cells, Holds (familyFiles listing spoiltCounters) (.ofString "/proc") .io "7".toList cells :=
  ⟨_, _, familyFiles_counters listing spoiltCounters, rfl⟩

/-- The child's own file can be read and holds no row, or one that cannot be typed. -/
def Bad (files : FileTree) (procRoot : Path) (file : ChildFile) (pid : Text) : Prop :=
  ∃ content, files.readText (file.path procRoot pid) = .ok content ∧
    ∀ cells, file.row pid content = .ok cells → ¬ Table.Readable file.signature cells

/-- The child's own file can be read and holds no row. -/
def Unparsed (files : FileTree) (procRoot : Path) (file : ChildFile) (pid : Text) : Prop :=
  ∃ content cause, files.readText (file.path procRoot pid) = .ok content ∧ file.row pid content = .error cause

theorem Unparsed.not_holds {files : FileTree} (h : Unparsed files procRoot file pid) (cells : Row) :
    ¬ Holds files procRoot file pid cells := by
  obtain ⟨content, cause, hread, hrow⟩ := h
  intro hheld
  obtain ⟨other, hother, hcells⟩ := hheld
  rw [hread] at hother
  cases hother
  rw [hrow] at hcells
  cases hcells

theorem Unparsed.bad {files : FileTree} (h : Unparsed files procRoot file pid) : Bad files procRoot file pid := by
  have hnone := h.not_holds
  obtain ⟨content, -, hread, -⟩ := h
  exact ⟨content, hread, fun cells hcells => absurd ⟨content, hread, hcells⟩ (hnone cells)⟩

theorem Holds.bad {files : FileTree} {cells : Row} (h : Holds files procRoot file pid cells)
    (hreadable : ¬ Table.Readable file.signature cells) : Bad files procRoot file pid := by
  have hheld := h
  obtain ⟨content, hread, -⟩ := h
  refine ⟨content, hread, fun other hother => ?_⟩
  rwa [Holds.unique ⟨content, hread, hother⟩ hheld]

theorem Fault.unparsed_of_malformed {files : FileTree} {path : Path} {cause : ParseError}
    (h : Fault files procRoot file pid (.table (.malformed path cause))) :
    path = file.path procRoot pid ∧ Unparsed files procRoot file pid := by
  cases h with
  | unparsed hread hrow => exact ⟨rfl, _, _, hread, hrow⟩

/-- No child's file is the list of children: the names in their last places end differently. -/
theorem listPath_ne_path (machine : Machine) (context : Context) (parent : Option UInt32) (file : ChildFile)
    (pid : Text) : listPath machine context parent ≠ file.path context.procRoot pid := by
  intro h
  have hlist : (listPath machine context parent).text.getLast? = some 'n' := by
    rw [listPath, childrenPath, Path.getLast?_join (by simp), List.getLast?_append]
    rfl
  rw [h] at hlist
  cases file with
  | io =>
    have hio : (ChildFile.io.path context.procRoot pid).text.getLast? = some 'o' := Path.getLast?_join (by decide)
    exact absurd (hio.symm.trans hlist) (by decide)
  | stat =>
    have hstat : (ChildFile.stat.path context.procRoot pid).text.getLast? = some 't' := Path.getLast?_join (by decide)
    exact absurd (hstat.symm.trans hlist) (by decide)

/-- A report of malformed data about rows that all children hold is about one of these, and names the list. -/
theorem malformed_of_rows {rows : List Row} {path listed : Path} {cause : ParseError}
    (hrows : childRows machine procRoot file.facet pids = .ok rows)
    (h : Table.assemble rows file.signature (.file listed) = .error (.malformed path cause)) :
    path = listed ∧ ∃ (i : Nat) (pid : Text) (cells : Row), pids[i]? = some pid ∧
      Holds machine.files procRoot file pid cells ∧ Table.FirstFault file.signature (i + 1) cells cause := by
  obtain ⟨rfl, hread⟩ := Table.assemble_eq_malformed_iff.mp h
  obtain ⟨i, cells, hcells, hfault, -⟩ := Format.eachNumbered_eq_error_iff_at.mp hread
  obtain ⟨pid, hpid, hheld⟩ := holds_of_row hrows hcells
  rw [Nat.add_comm] at hfault
  exact ⟨rfl, i, pid, cells, hpid, hheld, Table.coerceRow_eq_error_iff.mp hfault⟩

/-- A child that the list names rightly is not what is wrong with its counters. -/
theorem cause_ne_value_pid {files : FileTree} {cells : Row} {cause : ParseError} {n : Nat} {id : Signed 32}
    (hid : Coerce.toInt32 pid = .ok id) (hheld : Holds files procRoot .io pid cells)
    (hfault : Table.FirstFault ChildFile.io.signature n cells cause) (c : CoerceError) : cause ≠ .value n 1 c := by
  intro hcause
  subst hcause
  cases hfault with
  | @value j cell type _ _ hcell htype hcause _ =>
    rw [head_of_holds_io hheld] at hcell
    cases hcell
    cases htype
    simp only [Cell.coerce, hid] at hcause
    cases hcause

/-- Where data is reported as malformed and all children listed are process ids, the file reported is one with bad
    data exactly when some child's file has no row. When all of them have one, the list is reported instead, whose
    entries are all in order: the fault is in the file of a child, and in a counter of it and not in its entry. -/
theorem blame_is_right_iff_unparsed (h : Listed machine context file parent expected pids)
    (hvalid : ∀ pid ∈ pids, ∃ id, Coerce.toInt32 pid = .ok id) {path : Path} {cause : ParseError}
    (hreport : (Query.children file.facet parent).execute machine context expected =
      .error (.table (.malformed path cause))) :
    ((∃ pid ∈ pids, path = file.path context.procRoot pid ∧ Bad machine.files context.procRoot file pid) ↔
      ∃ pid ∈ pids, Unparsed machine.files context.procRoot file pid) ∧
    ((∀ pid ∈ pids, ¬ Unparsed machine.files context.procRoot file pid) →
      path = listPath machine context parent ∧ ∃ (i : Nat) (pid : Text) (cells : Row), pids[i]? = some pid ∧
        Holds machine.files context.procRoot file pid cells ∧ Bad machine.files context.procRoot file pid ∧
        Table.FirstFault file.signature (i + 1) cells cause ∧
        (file = .io → ∀ c, cause ≠ .value (i + 1) 1 c)) := by
  rcases (execute_eq_error_iff h).mp hreport with hfirst | ⟨rows, hrows, _, htable, hcause⟩
  · obtain ⟨i, pid, hpid, hfault, -⟩ := hfirst
    obtain ⟨hpath, hunparsed⟩ := hfault.unparsed_of_malformed
    have hmem := List.mem_of_getElem? hpid
    exact ⟨⟨fun _ => ⟨pid, hmem, hunparsed⟩, fun _ => ⟨pid, hmem, hpath, hunparsed.bad⟩⟩,
      fun hnone => absurd hunparsed (hnone pid hmem)⟩
  · cases hcause
    obtain ⟨hpath, i, pid, cells, hpid, hheld, hfault⟩ := malformed_of_rows hrows htable
    refine ⟨⟨?_, ?_⟩, fun _ => ⟨hpath, i, pid, cells, hpid, hheld, hheld.bad hfault.not_readable, hfault, ?_⟩⟩
    · intro hblamed
      obtain ⟨other, -, hother, -⟩ := hblamed
      exact absurd (hpath.symm.trans hother) (listPath_ne_path machine context parent file other)
    · intro hsome
      obtain ⟨other, hmem, hunparsed⟩ := hsome
      obtain ⟨held, hother⟩ := exists_childRows_iff.mp ⟨rows, hrows⟩ other hmem
      exact absurd hother (hunparsed.not_holds held)
    · intro hio c
      subst hio
      obtain ⟨id, hid⟩ := hvalid pid (List.mem_of_getElem? hpid)
      exact cause_ne_value_pid hid hheld hfault c

def truncatedCounters : String := "rchar: 1\nwchar: 2\n"

theorem truncated_reported : familyCounters "7\n" truncatedCounters =
    .error (.table (.malformed (.ofString "/proc/7/io") (.lineCount (.exactly 7) 2))) := by decide

theorem spoilt_reported : familyCounters "7\n" spoiltCounters =
    .error (.table (.malformed (.ofString "/proc/1/task/1/children") (.value 1 4 (.invalid "x".toList "numeric")))) := by
  decide

theorem truncated_state_reported : familyStates "8\n" =
    .error (.table (.malformed (.ofString "/proc/8/stat") (.tokenCount 1 (.exactly 52) 3))) := by decide

theorem only_child_valid : ∀ pid ∈ Format.ProcessFile.children "7\n".toList, ∃ id, Coerce.toInt32 pid = .ok id :=
  List.forall_mem_singleton.mpr ⟨_, rfl⟩

/-- A file with too few counters is itself reported, and so is a state that is cut off; for a counter that is no number
    the list is, though its entry is a process id. -/
theorem family_blamed :
    (∃ pid ∈ ["7".toList], Path.ofString "/proc/7/io" = ChildFile.io.path (.ofString "/proc") pid ∧
      Bad (familyFiles "7\n" truncatedCounters) (.ofString "/proc") .io pid) ∧
    (∃ pid ∈ ["8".toList], Path.ofString "/proc/8/stat" = ChildFile.stat.path (.ofString "/proc") pid ∧
      Bad (familyFiles "8\n" "") (.ofString "/proc") .stat pid) ∧
    ∃ (i : Nat) (pid : Text), ["7".toList][i]? = some pid ∧
      Bad (familyFiles "7\n" spoiltCounters) (.ofString "/proc") .io pid := by
  obtain ⟨right, -⟩ :=
    blame_is_right_iff_unparsed (family_listed "7\n" truncatedCounters .io) only_child_valid truncated_reported
  have hvalid : ∀ pid ∈ ["8".toList], ∃ id, Coerce.toInt32 pid = .ok id := List.forall_mem_singleton.mpr ⟨_, rfl⟩
  obtain ⟨stateRight, -⟩ :=
    blame_is_right_iff_unparsed (family_listed "8\n" "" .stat) hvalid truncated_state_reported
  obtain ⟨-, wrong⟩ :=
    blame_is_right_iff_unparsed (family_listed "7\n" spoiltCounters .io) only_child_valid spoilt_reported
  refine ⟨?_, ?_, ?_⟩
  · exact right.mpr ⟨"7".toList, List.mem_singleton_self _, _, _, familyFiles_counters _ _, rfl⟩
  · exact stateRight.mpr ⟨"8".toList, List.mem_singleton_self _, _, _, familyFiles_truncated _ _, rfl⟩
  · have hparsed : ∀ pid ∈ ["7".toList],
        ¬ Unparsed (familyFiles "7\n" spoiltCounters) (.ofString "/proc") .io pid :=
      List.forall_mem_singleton.mpr fun hunparsed => (holds_spoilt _).elim hunparsed.not_holds
    obtain ⟨-, i, pid, -, hpid, -, hbad, -⟩ := wrong hparsed
    exact ⟨i, pid, hpid, hbad⟩

/-- The only child is listed by its process id, and one of its counters is no number: the path reported is that of the
    list, which is the file of no child. -/
theorem list_blamed_for_counter :
    (familyFiles "7\n" spoiltCounters).readText (.ofString "/proc/1/task/1/children") = .ok "7\n".toList ∧
    (∀ pid ∈ Format.ProcessFile.children "7\n".toList, ∃ id, Coerce.toInt32 pid = .ok id) ∧
    ∃ path cause, familyCounters "7\n" spoiltCounters = .error (.table (.malformed path cause)) ∧
      ¬ ∃ pid ∈ Format.ProcessFile.children "7\n".toList, path = ChildFile.io.path familyContext.procRoot pid ∧
        Bad (familyFiles "7\n" spoiltCounters) familyContext.procRoot .io pid := by
  refine ⟨familyFiles_listing _ _, only_child_valid, _, _, spoilt_reported, ?_⟩
  intro hblamed
  obtain ⟨pid, hpid, hpath, -⟩ := hblamed
  obtain rfl : pid = "7".toList := List.mem_singleton.mp hpid
  exact absurd hpath (by decide)

end Query

end ChildProcess

end HostTables
