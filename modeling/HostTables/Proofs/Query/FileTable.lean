/-
  HostTables.Proofs.Query.FileTable — reading a file as a table never fails by its width.

  A query reads a file in the format of its view or of the kernel file it is about (`Queried`).
  All of these are put on types they are meant for (`Queried.matched`). `file_tables_fit`: the
  rows of every format have the width of its signature, and in a queried format their cells
  are what the columns ask for; so no table that is read fails because of a width, and where rows
  are there but cannot be assembled, a token is to blame that its column's conversion refuses.
-/
import HostTables.Proofs.Table.Faults
import HostTables.Query.Execute

namespace HostTables

/-- The formats in which queries read files; the last is that of the `stat` files of children. -/
inductive Format.Queried : Format → Prop
  | cgroupFile (view : CgroupView) : Queried view.reading.format
  | podinfoFile (view : PodinfoView) : Queried view.reading.format
  | procFile (file : ProcFile) : Queried (.kernel file.kernelFile)
  | processStat : Queried (.kernel .processStat)

theorem Format.Queried.matched {format : Format} (h : format.Queried) : format.Matched = true := by
  cases h with
  | cgroupFile view => cases view <;> rfl
  | podinfoFile view => cases view <;> rfl
  | procFile file => rfl
  | processStat => rfl

namespace Query

theorem readTable_not_width {files : FileTree} {path origin : Path} {format : Format} {fault : ParseError}
    (h : readTable files path format = .error (.table (.malformed origin fault))) : fault.isWidth = false := by
  rcases bind_eq_error.mp h with h | ⟨content, -, h⟩
  · obtain ⟨cause, -, hread⟩ := mapError_eq_error.mp h
    cases hread
  · rcases bind_eq_error.mp h with h | ⟨rows, hrows, h⟩
    · obtain ⟨cause, hcause, hmalformed⟩ := mapError_eq_error.mp h
      cases hmalformed
      exact (format.rows_shaped content).of_error hcause
    · obtain ⟨e, he, htable⟩ := mapError_eq_error.mp h
      cases htable
      rcases Table.assemble_eq_error he with ⟨-, hnone⟩ | ⟨i, cells, cause, hcells, hcause, hmalformed⟩
      · cases hnone
      · cases hmalformed
        have hshaped := (format.rows_shaped content).of_ok (mapError_eq_ok.mp hrows) cells (List.mem_of_getElem? hcells)
        rcases Table.coerceRow_eq_error hcause with ⟨hl, -⟩ | ⟨j, cell, type, cause, -, -, -, rfl⟩
        · exact absurd hshaped.length hl
        · rfl

/-- Rows fit the signature of their format, so a table that is read never fails by a width, and rows
    that cannot be assembled hold a token that its column's conversion refuses. -/
theorem file_tables_fit :
    (∀ (format : Format) (content : Text) (rows : List Row), format.rows content = .ok rows →
      ∀ row ∈ rows, row.length = format.signature.length) ∧
    (∀ format : Format, format.Queried → ∀ (content : Text) (rows : List Row), format.rows content = .ok rows →
      ∀ row ∈ rows, List.Forall₂
        (fun cell type => cell.Suits type ∨ format = .kernel .diskstats ∧ cell = .null) row format.signature) ∧
    (∀ (files : FileTree) (path origin : Path) (format : Format) (row expected actual : Nat),
      readTable files path format ≠ .error (.table (.malformed origin (.columnCount row expected actual)))) ∧
    ∀ format : Format, format.Queried → ∀ (content : Text) (rows : List Row), format.rows content = .ok rows →
      ∀ (path : Path) (e : TableError), Table.assemble rows format.signature (.file path) = .error e →
        (rows = [] ∧ e = .noData path) ∨
          ∃ i j cells cell type t cause, rows[i]? = some cells ∧ cells[j]? = some cell ∧
            format.signature[j]? = some type ∧ t ∈ cell.tokens ∧ type.Rejects t cause ∧
            e = .malformed path (.value (i + 1) (j + 1) cause) := by
  have hshaped : ∀ (format : Format) (content : Text) (rows : List Row), format.rows content = .ok rows →
      ∀ row ∈ rows, format.Shaped row :=
    fun format content _ h => (format.rows_shaped content).of_ok h
  have htakes : ∀ format : Format, format.Queried → ∀ (content : Text) (rows : List Row),
      format.rows content = .ok rows → ∀ row ∈ rows, List.Forall₂ format.Takes row format.signature :=
    fun format hq content rows h row hrow => (hshaped format content rows h row hrow).forall₂_takes hq.matched
  refine ⟨?_, htakes, ?_, ?_⟩
  · intro format content rows h row hrow
    exact (hshaped format content rows h row hrow).length
  · intro files path origin format row expected actual h
    cases readTable_not_width h
  · intro format hq content rows h path e he
    exact Table.assemble_eq_error_of_takes (htakes format hq content rows h) he

/-- A line of an older kernel, without discards and flushes, whose last counter is no number. -/
def shortDisk : Text := "8 0 sda 1 2 3 4 5 6 7 8 9 10 x\n".toList

def shortDiskRow : Row :=
  Format.tokenRow (["8", "0", "sda", "1", "2", "3", "4", "5", "6", "7", "8", "9", "10", "x"].map String.toList) ++
    List.replicate 6 .null

/-- The row is padded to the width of the signature, and the table fails by the last token. -/
theorem short_disk_fits :
    (Format.kernel .diskstats).rows shortDisk = .ok [shortDiskRow] ∧
    shortDiskRow.length = 20 ∧
    List.Forall₂ (Format.kernel .diskstats).Takes shortDiskRow Format.Diskstats.signature ∧
    (Table.assemble [shortDiskRow] Format.Diskstats.signature (.file (.ofString "/diskstats")) =
      .error (.malformed (.ofString "/diskstats") (.value 1 14 (.invalid ['x'] "bigint"))) ∧
    ∃ i j cells cell type t cause, [shortDiskRow][i]? = some cells ∧ cells[j]? = some cell ∧
      Format.Diskstats.signature[j]? = some type ∧ t ∈ cell.tokens ∧ type.Rejects t cause ∧
      TableError.malformed (.ofString "/diskstats") (.value 1 14 (.invalid ['x'] "bigint")) =
        .malformed (.ofString "/diskstats") (.value (i + 1) (j + 1) cause)) := by
  obtain ⟨widths, cells, -, faults⟩ := file_tables_fit
  have hrows : (Format.kernel .diskstats).rows shortDisk = .ok [shortDiskRow] := by decide
  have hfault : Table.assemble [shortDiskRow] Format.Diskstats.signature (.file (.ofString "/diskstats")) =
      .error (.malformed (.ofString "/diskstats") (.value 1 14 (.invalid ['x'] "bigint"))) := by decide
  refine ⟨hrows, widths _ _ _ hrows _ List.mem_cons_self, cells _ (.procFile .diskstats) _ _ hrows _ List.mem_cons_self,
    hfault, ?_⟩
  rcases faults _ (.procFile .diskstats) _ _ hrows _ _ hfault with ⟨hnone, -⟩ | hsome
  · cases hnone
  · exact hsome

end Query

end HostTables
