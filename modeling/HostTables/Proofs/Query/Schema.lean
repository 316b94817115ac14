/-
  HostTables.Proofs.Query.Schema — answers have the schema that their query declares.

  A caller may say which columns it expects. `execute_keeps_schema`: other columns than the
  query's signature are refused before anything is read, whatever the machine holds; with the
  signature, or without a declaration, no mismatch is ever reported, and an answer conforms to
  the signature.

  The signature of a query is written down apart from the formats that its answer is made by. There is
  one lemma for each family of queries that the two have the same columns (`signature_cgroupFile` and
  those that follow it).

  The steps of an answer are followed one by one: a step delivers `P` when it ends in a value
  with `P` or in an error that is not a schema mismatch (`Delivers`). There is one lemma for
  each step, and `answer_delivers` puts them together query by query.
-/
import HostTables.Machine.Observed
import HostTables.Proofs.Table.Conforms
import HostTables.Query.Execute

namespace HostTables

/-! ## Declared and executed columns -/

namespace Query

@[simp] theorem signature_cgroupFile (view : CgroupView) (name : Text) :
    (Query.cgroupFile view name).signature = view.reading.signature := by
  cases view <;> rfl

@[simp] theorem signature_podinfoFile (view : PodinfoView) (name : Text) :
    (Query.podinfoFile view name).signature = view.reading.signature := by
  cases view <;> rfl

@[simp] theorem signature_procFile (file : ProcFile) :
    (Query.procFile file).signature = file.kernelFile.signature := by
  cases file <;> rfl

@[simp] theorem signature_children (facet : ProcessFacet) (parent : Option UInt32) :
    (Query.children facet parent).signature = facet.signature := by
  cases facet <;> rfl

@[simp] theorem signature_fileSystem (path : Path) :
    (Query.fileSystem path).signature = FileSystemInfo.signature := rfl

end Query

/-! ## What a step delivers -/

/-- Only the check of declared columns reports this. -/
def QueryError.isMismatch : QueryError → Bool
  | .schemaMismatch .. => true
  | _ => false

/-- The result is a value with the property, or an error other than a schema mismatch. -/
def Delivers {α : Type} (P : α → Prop) : Except QueryError α → Prop
  | .ok a => P a
  | .error e => e.isMismatch = false

namespace Delivers

variable {α β ε : Type} {P : α → Prop} {Q : β → Prop}

theorem bind {x : Except QueryError α} {f : α → Except QueryError β} (hx : Delivers P x)
    (hf : ∀ a, P a → Delivers Q (f a)) : Delivers Q (x >>= f) := by
  cases x with
  | error e => exact hx
  | ok a => exact hf a hx

theorem map {x : Except QueryError α} {f : α → β} (hx : Delivers P x) (hf : ∀ a, P a → Q (f a)) :
    Delivers Q (f <$> x) := by
  cases x with
  | error e => exact hx
  | ok a => exact hf a hx

/-- A step of another kind, its errors wrapped so that none of them is a mismatch. -/
theorem mapError {x : Except ε α} {f : ε → QueryError} (hx : ∀ a, x = .ok a → P a)
    (hf : ∀ e, (f e).isMismatch = false) : Delivers P (x.mapError f) := by
  cases x with
  | error e => exact hf e
  | ok a => exact hx a rfl

theorem not_mismatch {x : Except QueryError α} (hx : Delivers P x) (expected actual : Signature) :
    x ≠ .error (.schemaMismatch expected actual) := by
  rintro rfl
  cases hx

end Delivers

/-- A step of which only the kind of its errors matters. -/
abbrev Sound {α : Type} (x : Except QueryError α) : Prop := Delivers (fun _ => True) x

theorem sound_mapError {α ε : Type} {x : Except ε α} {f : ε → QueryError} (hf : ∀ e, (f e).isMismatch = false) :
    Sound (x.mapError f) :=
  .mapError (fun _ _ => trivial) hf

/-! ## Files of a format -/

theorem assemble_delivers (rows : List Row) (signature : Signature) (source : Source) :
    Delivers (·.Conforms signature) ((Table.assemble rows signature source).mapError QueryError.table) :=
  .mapError (fun _ h => Table.assemble_conforms h) fun _ => rfl

namespace Query

theorem readTable_delivers (files : FileTree) (path : Path) (format : Format) :
    Delivers (·.Conforms format.signature) (readTable files path format) := by
  unfold readTable
  refine .bind (sound_mapError fun _ => rfl) fun content _ => ?_
  refine .bind (sound_mapError fun _ => rfl) fun rows _ => ?_
  exact assemble_delivers rows format.signature (.file path)

theorem readFile_delivers (files : FileTree) (reading : Reading) (path : Option Path) :
    Delivers (·.Conforms reading.signature) (readFile files reading path) := by
  cases path with
  | none => exact reading.off_conforms
  | some path => exact .map (readTable_delivers files path reading.format) fun _ h => reading.ofTable_conforms h

end Query

/-! ## Cgroups and the Downward API -/

theorem CgroupState.filePath_sound (files : FileTree) (state : CgroupState) (name : Text) :
    Sound (state.filePath files name) := by
  unfold filePath
  refine .bind (sound_mapError fun _ => rfl) fun _ _ => ?_
  split
  · rfl
  · split
    · rfl
    · exact sound_mapError fun _ => rfl

theorem CgroupState.memberPids_sound (files : FileTree) (state : CgroupState) : Sound (state.memberPids files) := by
  unfold memberPids
  refine .bind (filePath_sound files state _) fun path _ => ?_
  split
  · rfl
  · exact sound_mapError fun _ => rfl

namespace Query

theorem cgroupPath?_sound (files : FileTree) (context : Context) (name : Text) :
    Sound (cgroupPath? files context name) := by
  unfold cgroupPath?
  refine .bind (sound_mapError fun _ => rfl) fun _ _ => ?_
  split
  · exact .map (CgroupState.filePath_sound files context.cgroup name) fun _ _ => trivial
  · trivial

theorem podinfoPath?_sound (files : FileTree) (context : Context) (name : Text) :
    Sound (podinfoPath? files context name) := by
  unfold podinfoPath?
  refine .bind (sound_mapError fun _ => rfl) fun _ _ => ?_
  split
  · exact .map (sound_mapError fun _ => rfl) fun _ _ => trivial
  · trivial

theorem cgroupTable_delivers (context : Context) : Delivers (·.Conforms [.text, .text]) (cgroupTable context) :=
  assemble_delivers _ _ _

theorem processCount_delivers (files : FileTree) (context : Context) :
    Delivers (·.Fits .int4) (processCount files context) := by
  unfold processCount
  split
  · exact .bind (CgroupState.memberPids_sound files context.cgroup) fun _ _ => Value.fits_of_type rfl
  · exact Value.null_fits _

/-! ## The environment -/

theorem textIfSet_sound (machine : Machine) (name : Text) : Sound (textIfSet machine name) := by
  unfold textIfSet
  split
  · trivial
  · split
    · trivial
    · rfl

theorem textOf_delivers (machine : Machine) (name : Text) : Delivers (·.Fits .text) (textOf machine name) := by
  unfold textOf
  refine .bind (textIfSet_sound machine name) fun set _ => ?_
  cases set with
  | none => exact Value.null_fits _
  | some text => exact Value.fits_of_type rfl

theorem bigintOf_delivers (machine : Machine) (name : Text) :
    Delivers (·.Fits .int8) (bigintOf machine name) := by
  unfold bigintOf
  refine .bind (textIfSet_sound machine name) fun set _ => ?_
  cases set with
  | none => exact Value.null_fits _
  | some text =>
    dsimp only
    split
    · exact Value.fits_of_type rfl
    · rfl

end Query

/-! ## Procfs and the machine -/

namespace ChildProcess

theorem rowOf_sound (files : FileTree) (path : Path) (parse : Text → Except ParseError Row) :
    Sound (rowOf files path parse) := by
  unfold rowOf
  split
  · rfl
  · exact sound_mapError fun _ => rfl

theorem childRow_sound (machine : Machine) (procRoot : Path) (facet : ProcessFacet) (pid : Text) :
    Sound (childRow machine procRoot facet pid) := by
  cases facet with
  | io => exact rowOf_sound _ _ _
  | stat => exact rowOf_sound _ _ _
  | commandLine =>
    refine .bind (sound_mapError fun _ => rfl) fun _ _ => ?_
    exact .bind (sound_mapError fun _ => rfl) fun _ _ => trivial

theorem childRows_sound (machine : Machine) (procRoot : Path) (facet : ProcessFacet) (pids : List Text) :
    Sound (childRows machine procRoot facet pids) := by
  induction pids with
  | nil => trivial
  | cons pid rest ih => exact .bind (childRow_sound machine procRoot facet pid) fun _ _ => .bind ih fun _ _ => trivial

theorem childTable_delivers (machine : Machine) (procRoot : Path) (facet : ProcessFacet) (parent : Nat) :
    Delivers (·.Conforms facet.signature) (childTable machine procRoot facet parent) := by
  unfold childTable
  refine .bind (sound_mapError fun _ => rfl) fun content _ => ?_
  refine .bind (childRows_sound machine procRoot facet _) fun rows _ => ?_
  exact assemble_delivers rows facet.signature _

end ChildProcess

namespace Query

theorem procTable_delivers (files : FileTree) (context : Context) (file : ProcFile) :
    Delivers (·.Conforms file.kernelFile.signature) (procTable files context file) := by
  unfold procTable
  split
  · exact readTable_delivers files _ (.kernel file.kernelFile)
  · exact Table.empty_conforms _

theorem childrenTable_delivers (machine : Machine) (context : Context) (facet : ProcessFacet)
    (parent : Option UInt32) :
    Delivers (·.Conforms facet.signature) (childrenTable machine context facet parent) := by
  unfold childrenTable
  split
  · exact ChildProcess.childTable_delivers machine _ facet _
  · exact Table.empty_conforms _

theorem fileSystemTable_delivers (machine : Machine) (context : Context) (path : Path) :
    Delivers (·.Conforms FileSystemInfo.signature) (fileSystemTable machine context path) := by
  unfold fileSystemTable
  split
  · refine .bind (sound_mapError fun _ => rfl) fun info _ => ?_
    exact assemble_delivers [info.row] FileSystemInfo.signature (.file path)
  · exact Table.empty_conforms _

/-! ## Answers -/

theorem answer_delivers (machine : Machine) (context : Context) (query : Query) :
    Delivers (·.Conforms query.signature) (query.answer machine context) := by
  cases query with
  | cgroupMode => exact ⟨.text, rfl, Value.fits_of_type rfl⟩
  | cgroupPaths => exact .map (cgroupTable_delivers context) fun _ h => h
  | cgroupProcessCount => exact .map (processCount_delivers machine.files context) fun _ h => ⟨.int4, rfl, h⟩
  | cgroupFile view name =>
    rw [signature_cgroupFile]
    exact .bind (cgroupPath?_sound machine.files context name) fun path _ => readFile_delivers _ view.reading path
  | podinfoFile view name =>
    rw [signature_podinfoFile]
    exact .bind (podinfoPath?_sound machine.files context name) fun path _ => readFile_delivers _ view.reading path
  | variableText name => exact .map (textOf_delivers machine name) fun _ h => ⟨.text, rfl, h⟩
  | variableBigint name => exact .map (bigintOf_delivers machine name) fun _ h => ⟨.int8, rfl, h⟩
  | procFile file =>
    rw [signature_procFile]
    exact .map (procTable_delivers machine.files context file) fun _ h => h
  | children facet parent =>
    rw [signature_children]
    exact .map (childrenTable_delivers machine context facet parent) fun _ h => h
  | fileSystem path =>
    rw [signature_fileSystem]
    exact .map (fileSystemTable_delivers machine context path) fun _ h => h
  | pagesToBytes pages => exact ⟨.numeric, rfl, Value.fits_of_type rfl⟩

theorem execute_conforms {machine : Machine} {context : Context} {expected : Option Signature} {query : Query}
    {answer : Answer} (h : query.execute machine context expected = .ok answer) : answer.Conforms query.signature := by
  have hanswer : query.answer machine context = .ok answer := by
    cases expected with
    | none => exact h
    | some columns =>
      simp only [execute] at h
      split at h
      · exact h
      · cases h
  have hd := answer_delivers machine context query
  rwa [hanswer] at hd

/-- Columns other than the signature are refused whatever the machine holds. With the signature
    declared or nothing declared, no mismatch is reported and every answer conforms. -/
theorem execute_keeps_schema (machine : Machine) (context : Context) (query : Query) :
    (∀ columns, columns ≠ query.signature →
      query.execute machine context (some columns) = .error (.schemaMismatch columns query.signature)) ∧
    ∀ expected : Option Signature, (∀ columns ∈ expected, columns = query.signature) →
      (∀ e a, query.execute machine context expected ≠ .error (.schemaMismatch e a)) ∧
      ∀ answer, query.execute machine context expected = .ok answer → answer.Conforms query.signature := by
  refine ⟨fun columns hne => if_neg hne, fun expected hexp => ?_⟩
  have heq : query.execute machine context expected = query.answer machine context := by
    cases expected with
    | none => rfl
    | some columns => exact if_pos (hexp columns rfl)
  have hd := answer_delivers machine context query
  rw [heq]
  refine ⟨hd.not_mismatch, fun answer h => ?_⟩
  rw [h] at hd
  exact hd

/-- A version 2 cgroup at `/cg` with one statistics file. -/
def memoryMachine : Machine :=
  .ofFiles ⟨[(["cg".toList], .directory),
    (["cg".toList, "memory.stat".toList], .file (Utf8.encode "anon 4096\n".toList))], []⟩ []

def memoryContext : Context where
  cgroup := ⟨.unified, false, .ofString "/cg", ⟨[("memory".toList, .ofString "/cg")]⟩⟩
  podinfoEnabled := false
  podinfoPath := .ofString "/podinfo"
  procEnabled := false
  procRoot := .ofString "/proc"

def memoryQuery : Query := .cgroupFile .keyValues "memory.stat".toList

def memoryAnswer : Answer := .table ⟨[.text, .int8], [[.text "anon".toList, .int8 ⟨4096, by decide, by decide⟩]]⟩

/-- The statistics file as keys and values: two text columns are refused, the signature is answered. -/
theorem memory_stat_keeps_schema :
    memoryQuery.execute memoryMachine memoryContext (some [.text, .text]) =
      .error (.schemaMismatch [.text, .text] [.text, .int8]) ∧
    memoryQuery.execute memoryMachine memoryContext (some [.text, .int8]) = .ok memoryAnswer ∧
    memoryAnswer.Conforms [.text, .int8] := by
  obtain ⟨refused, kept⟩ := execute_keeps_schema memoryMachine memoryContext memoryQuery
  have answered : memoryQuery.execute memoryMachine memoryContext (some [.text, .int8]) = .ok memoryAnswer := by
    decide
  refine ⟨refused [.text, .text] (by decide), answered, ?_⟩
  exact (kept (some [.text, .int8]) (fun columns h => by cases h; rfl)).2 memoryAnswer answered

end Query

end HostTables
