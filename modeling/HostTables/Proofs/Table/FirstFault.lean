/-
  HostTables.Proofs.Table.FirstFault — what assembling a table answers, in every case.

  A row can be read when it is as wide as the signature and each of its cells is a value of its column's
  type (`Readable`); its values are then those of its cells (`Reads`). Otherwise one fault of it is
  reported: its width, or, if that is right, its first cell that cannot be read (`FirstFault`). Both the cells of
  a row and the rows of a table are read one after the other, so the answer for either is told by
  positions (`coerceRow_eq_ok_iff`, `coerceRow_eq_error_iff`). `assembled_exactly`: without rows there is
  no data, with rows that can all be read there is the table of their values, and otherwise the fault of the
  first row that cannot be read is reported.
-/
import HostTables.Proofs.Table.Faults
import HostTables.Proofs.Table.Filled

namespace HostTables

/-! ## Cells -/

theorem coerce_null_iff {cell : Cell} {type : ColumnType} : cell.coerce type = .ok .null ↔ cell = .null := by
  constructor
  · intro h
    by_cases hc : cell = .null
    · exact hc
    · exact absurd rfl (coerce_ne_null hc h)
  · rintro rfl
    rfl

/-- Every item of a list of numbers is read as it would be by itself in a column of numbers. -/
theorem coerce_items_iff {items : List Text} {value : Value} : (Cell.list items).coerce .int8Array = .ok value ↔
    ∃ words, value = .int8Array words ∧
      List.Forall₂ (fun item word => (Cell.token item).coerce .int8 = .ok (.int8 word)) items words := by
  have hitem : ∀ item word, (Cell.token item).coerce .int8 = .ok (.int8 word) ↔ Coerce.toInt64 item = .ok word := by
    intro item word
    simp only [Cell.coerce, map_eq_ok, Value.int8.injEq, exists_eq_right]
  have hmap : (Cell.list items).coerce .int8Array = Value.int8Array <$> items.mapM Coerce.toInt64 := rfl
  simp only [hitem, hmap, map_eq_ok, mapM_eq_ok_iff]
  constructor
  · intro h
    obtain ⟨words, hwords, rfl⟩ := h
    exact ⟨words, rfl, hwords⟩
  · intro h
    obtain ⟨words, rfl, hwords⟩ := h
    exact ⟨words, hwords, rfl⟩

namespace Table

/-! ## Rows -/

/-- The row is as wide as the signature, and every cell of it is a value of its column's type. -/
def Readable (signature : Signature) (cells : Row) : Prop :=
  cells.length = signature.length ∧
    ∀ (j : Nat) (cell : Cell) (type : ColumnType), cells[j]? = some cell → signature[j]? = some type →
      ∃ value, cell.coerce type = .ok value

/-- The values are those of the cells of the row, each at its place. -/
def Reads (signature : Signature) (cells : Row) (values : List Value) : Prop :=
  cells.length = signature.length ∧ values.length = signature.length ∧
    ∀ (j : Nat) (cell : Cell) (type : ColumnType), cells[j]? = some cell → signature[j]? = some type →
      ∃ value, values[j]? = some value ∧ cell.coerce type = .ok value

/-- What is reported of row `n`. Its width comes before its cells, and of these the first that is no value of
    its column's type before all others. -/
inductive FirstFault (signature : Signature) (n : Nat) (cells : Row) : ParseError → Prop
  | width : cells.length ≠ signature.length →
      FirstFault signature n cells (.columnCount n signature.length cells.length)
  | value {j : Nat} {cell : Cell} {type : ColumnType} {cause : CoerceError} :
      cells.length = signature.length → cells[j]? = some cell → signature[j]? = some type →
      cell.coerce type = .error cause →
      (∀ k < j, ∀ (earlier : Cell) (earlierType : ColumnType),
        cells[k]? = some earlier → signature[k]? = some earlierType → ∃ value, earlier.coerce earlierType = .ok value) →
      FirstFault signature n cells (.value n (j + 1) cause)

variable {signature : Signature} {n : Nat} {cells : Row} {values : List Value} {e : ParseError}

theorem coerceRow_eq_ok_iff : coerceRow signature n cells = .ok values ↔ Reads signature cells values := by
  unfold coerceRow Reads
  by_cases hwidth : cells.length = signature.length
  · have hzip : (cells.zip signature).length = signature.length := by simp [hwidth]
    simp only [hwidth, if_true, true_and, coerceCells_eq_eachNumbered, Format.eachNumbered_eq_ok_iff_at, hzip,
      Prod.forall, List.getElem?_zip_eq_some, coerceAt, mapError_eq_ok, and_imp]
  · simp [hwidth]

theorem coerceRow_eq_error_iff : coerceRow signature n cells = .error e ↔ FirstFault signature n cells e := by
  unfold coerceRow
  by_cases hwidth : cells.length = signature.length
  · simp only [hwidth, if_true, coerceCells_eq_eachNumbered, Format.eachNumbered_eq_error_iff_at, Prod.exists,
      Prod.forall, List.getElem?_zip_eq_some, coerceAt, mapError_eq_error, mapError_eq_ok, and_imp]
    constructor
    · intro h
      obtain ⟨j, cell, type, ⟨hcell, htype⟩, ⟨cause, hcause, rfl⟩, hbefore⟩ := h
      rw [Nat.add_comm]
      exact .value hwidth hcell htype hcause hbefore
    · intro h
      cases h with
      | width hne => exact absurd hwidth hne
      | @value j cell type cause _ hcell htype hcause hbefore =>
        exact ⟨j, cell, type, ⟨hcell, htype⟩, ⟨cause, hcause, by rw [Nat.add_comm]⟩, hbefore⟩
  · simp only [hwidth, if_false, Except.error.injEq]
    constructor
    · rintro rfl
      exact .width hwidth
    · intro h
      cases h with
      | width => rfl
      | value hl => exact absurd hl hwidth

theorem readable_iff : Readable signature cells ↔ ∃ values, coerceRow signature n cells = .ok values := by
  constructor
  · intro h
    cases hrow : coerceRow signature n cells with
    | ok values => exact ⟨values, rfl⟩
    | error e =>
      cases coerceRow_eq_error_iff.mp hrow with
      | width hne => exact absurd h.1 hne
      | value _ hcell htype hcause _ =>
        obtain ⟨value, hvalue⟩ := h.2 _ _ _ hcell htype
        rw [hvalue] at hcause
        cases hcause
  · intro h
    obtain ⟨values, hvalues⟩ := h
    obtain ⟨hwidth, -, hread⟩ := coerceRow_eq_ok_iff.mp hvalues
    refine ⟨hwidth, fun j cell type hcell htype => ?_⟩
    obtain ⟨value, -, hvalue⟩ := hread j cell type hcell htype
    exact ⟨value, hvalue⟩

theorem FirstFault.not_readable (h : FirstFault signature n cells e) : ¬ Readable signature cells := by
  intro hreadable
  obtain ⟨values, hvalues⟩ := readable_iff.mp hreadable
  rw [coerceRow_eq_error_iff.mpr h] at hvalues
  cases hvalues

/-! ## Tables -/

variable {rows : List Row} {path : Path} {table : Table} {cause : ParseError}

theorem assemble_eq_noData_iff {other : Path} :
    assemble rows signature (.file path) = .error (.noData other) ↔ rows = [] ∧ other = path := by
  simp only [assemble]
  cases rows with
  | nil => simp [eq_comm]
  | cons cells rest =>
    simp only [List.isEmpty_cons, Bool.false_eq_true, if_false, reduceCtorEq, false_and, iff_false]
    split <;> simp

theorem assemble_eq_ok_iff : assemble rows signature (.file path) = .ok table ↔
    rows ≠ [] ∧ table.columns = signature ∧ Format.eachNumbered (coerceRow signature) 1 rows = .ok table.rows := by
  simp only [assemble]
  cases rows with
  | nil => simp
  | cons cells rest =>
    simp only [List.isEmpty_cons, Bool.false_eq_true, if_false, ne_eq, reduceCtorEq, not_false_eq_true, true_and]
    obtain ⟨columns, values⟩ := table
    cases Format.eachNumbered (coerceRow signature) 1 (cells :: rest) with
    | error cause => simp
    | ok out => simp [Table.mk.injEq, eq_comm]

theorem assemble_eq_malformed_iff {other : Path} : assemble rows signature (.file path) = .error (.malformed other cause) ↔
    other = path ∧ Format.eachNumbered (coerceRow signature) 1 rows = .error cause := by
  simp only [assemble]
  cases rows with
  | nil => simp [Format.eachNumbered_nil]
  | cons cells rest =>
    simp only [List.isEmpty_cons, Bool.false_eq_true, if_false]
    cases Format.eachNumbered (coerceRow signature) 1 (cells :: rest) with
    | error fault => simp [eq_comm]
    | ok out => simp

theorem exists_table_iff : (∃ table, assemble rows signature (.file path) = .ok table) ↔
    rows ≠ [] ∧ ∀ cells ∈ rows, Readable signature cells := by
  have hread : (∃ out, Format.eachNumbered (coerceRow signature) 1 rows = .ok out) ↔
      ∀ cells ∈ rows, Readable signature cells := by
    refine Format.exists_eachNumbered_iff fun n cells => ?_
    exact readable_iff.symm
  rw [← hread]
  constructor
  · intro h
    obtain ⟨table, htable⟩ := h
    obtain ⟨hne, -, hout⟩ := assemble_eq_ok_iff.mp htable
    exact ⟨hne, table.rows, hout⟩
  · intro h
    obtain ⟨hne, out, hout⟩ := h
    exact ⟨⟨signature, out⟩, assemble_eq_ok_iff.mpr ⟨hne, rfl, hout⟩⟩

/-- Assembling rows answers that there is no data when there are no rows; with the table of their values, row by
    row and cell by cell, when there are and all can be read; and otherwise with the fault of the first row
    that cannot be. Null comes from null only, and the items of an array are read one by one. A source that
    is switched off has the empty table, whatever the rows are. -/
theorem assembled_exactly (rows : List Row) (signature : Signature) (path : Path) :
    (∀ other, assemble rows signature (.file path) = .error (.noData other) ↔ rows = [] ∧ other = path) ∧
    ((∃ table, assemble rows signature (.file path) = .ok table) ↔
      rows ≠ [] ∧ ∀ cells ∈ rows, Readable signature cells) ∧
    (∀ table, assemble rows signature (.file path) = .ok table →
      table.columns = signature ∧ table.rows.length = rows.length ∧
      ∀ (i : Nat) (cells : Row), rows[i]? = some cells →
        ∃ values, table.rows[i]? = some values ∧ Reads signature cells values) ∧
    (∀ other cause, assemble rows signature (.file path) = .error (.malformed other cause) ↔
      other = path ∧ ∃ (i : Nat) (cells : Row), rows[i]? = some cells ∧ FirstFault signature (i + 1) cells cause ∧
        ∀ k < i, ∀ earlier : Row, rows[k]? = some earlier → Readable signature earlier) ∧
    assemble rows signature .disabled = .ok ⟨signature, []⟩ ∧
    (∀ (cell : Cell) (type : ColumnType), cell.coerce type = .ok .null ↔ cell = .null) ∧
    ∀ (items : List Text) (value : Value), (Cell.list items).coerce .int8Array = .ok value ↔
      ∃ words, value = .int8Array words ∧
        List.Forall₂ (fun item word => (Cell.token item).coerce .int8 = .ok (.int8 word)) items words := by
  refine ⟨fun _ => assemble_eq_noData_iff, exists_table_iff, ?_, ?_, rfl, fun _ _ => coerce_null_iff,
    fun _ _ => coerce_items_iff⟩
  · intro table h
    obtain ⟨-, hcolumns, hread⟩ := assemble_eq_ok_iff.mp h
    obtain ⟨hlength, hrows⟩ := Format.eachNumbered_eq_ok_iff_at.mp hread
    refine ⟨hcolumns, hlength, fun i cells hcells => ?_⟩
    obtain ⟨values, hvalues, hrow⟩ := hrows i cells hcells
    exact ⟨values, hvalues, coerceRow_eq_ok_iff.mp hrow⟩
  · intro other cause
    simp only [assemble_eq_malformed_iff, Format.eachNumbered_eq_error_iff_at, coerceRow_eq_error_iff, ← readable_iff,
      Nat.add_comm 1]

/-- A row with null, one with a bad number, and one that is too short. -/
def faultyRows : List Row :=
  [[.token "high".toList, .null], [.token "low".toList, .token "x1".toList], [.token "max".toList]]

/-- The first row is a table by itself; of the two faults behind it the first is reported, and the width of
    the last row before its cell. -/
theorem faulty_rows_reported :
    (∃ table, assemble (faultyRows.take 1) [.text, .int8] (.file (.ofString "/f")) = .ok table) ∧
    assemble faultyRows [.text, .int8] (.file (.ofString "/f")) =
      .error (.malformed (.ofString "/f") (.value 2 2 (.invalid "x1".toList "bigint"))) ∧
    assemble (faultyRows.drop 2) [.numeric, .int8] (.file (.ofString "/f")) =
      .error (.malformed (.ofString "/f") (.columnCount 1 2 1)) := by
  have hfirst : Readable [.text, .int8] [.token "high".toList, .null] :=
    readable_iff.mpr ⟨_, show coerceRow _ 1 _ = .ok [.text "high".toList, .null] from rfl⟩
  obtain ⟨-, readable, -⟩ := assembled_exactly (faultyRows.take 1) [.text, .int8] (.ofString "/f")
  obtain ⟨-, -, -, number, -⟩ := assembled_exactly faultyRows [.text, .int8] (.ofString "/f")
  obtain ⟨-, -, -, width, -⟩ := assembled_exactly (faultyRows.drop 2) [.numeric, .int8] (.ofString "/f")
  refine ⟨readable.mpr ⟨by decide, List.forall_mem_singleton.mpr hfirst⟩, ?_, ?_⟩
  · refine (number _ _).mpr ⟨rfl, 1, _, rfl, coerceRow_eq_error_iff.mp (by decide), fun k hk earlier hearlier => ?_⟩
    obtain rfl : k = 0 := by omega
    cases hearlier
    exact hfirst
  · exact (width _ _).mpr ⟨rfl, 0, _, rfl, .width (by decide), nofun⟩

end Table

end HostTables
