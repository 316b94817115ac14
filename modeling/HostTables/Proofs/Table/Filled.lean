/-
  HostTables.Proofs.Table.Filled — assembled tables are not empty, and which of their values are null.

  A table that is assembled from a source that is on has a row for each raw row, of which there
  is at least one (`assemble_rows_ne_nil`, `assemble_eq_ok`). A cell that is there is never read as null
  (`coerce_ne_null`). The table of a single cell holds the value of that cell and nothing else
  (`assemble_cell_iff`), and an array of it is empty exactly when the cell has no items
  (`nullIfEmpty_of_list`).
-/
import HostTables.Proofs.Format.Signature
import HostTables.Query.Basic

namespace HostTables

/-! ## Values of cells -/

theorem coerce_ne_null {cell : Cell} {type : ColumnType} {value : Value} (hc : cell ≠ .null)
    (h : cell.coerce type = .ok value) : value ≠ .null := by
  rintro rfl
  cases cell with
  | null => exact hc rfl
  | token t =>
    cases type with
    | text => cases h
    | int4 => obtain ⟨n, -, hn⟩ := map_eq_ok.mp h; cases hn
    | int8 => obtain ⟨n, -, hn⟩ := map_eq_ok.mp h; cases hn
    | float8 => obtain ⟨x, -, hx⟩ := map_eq_ok.mp h; cases hx
    | numeric => obtain ⟨n, -, hn⟩ := map_eq_ok.mp h; cases hn
    | textArray => cases h
    | int8Array => cases h
  | list items =>
    cases type with
    | textArray => cases h
    | int8Array => obtain ⟨ns, -, hns⟩ := map_eq_ok.mp h; cases hns
    | text => cases h
    | int4 => cases h
    | int8 => cases h
    | float8 => cases h
    | numeric => cases h

/-- A list can be read as an array type only, and the array is empty when the list is. -/
theorem nullIfEmpty_of_list {items : List Text} {type : ColumnType} {value : Value}
    (h : (Cell.list items).coerce type = .ok value) : value.nullIfEmpty = .null ↔ items = [] := by
  cases type with
  | textArray =>
    cases h
    cases items <;> simp [Value.nullIfEmpty]
  | int8Array =>
    obtain ⟨ns, hns, rfl⟩ := map_eq_ok.mp h
    cases items with
    | nil =>
      cases hns
      simp [Value.nullIfEmpty]
    | cons t rest =>
      rw [List.mapM_cons] at hns
      obtain ⟨n, -, hns⟩ := bind_eq_ok.mp hns
      obtain ⟨more, -, hns⟩ := bind_eq_ok.mp hns
      cases hns
      simp [Value.nullIfEmpty]
  | text => cases h
  | int4 => cases h
  | int8 => cases h
  | float8 => cases h
  | numeric => cases h

theorem coerce_nil {type : ColumnType} (harray : type.isArray = true) :
    ∃ value, (Cell.list []).coerce type = .ok value := by
  cases type with
  | textArray => exact ⟨_, rfl⟩
  | int8Array => exact ⟨_, rfl⟩
  | text => cases harray
  | int4 => cases harray
  | int8 => cases harray
  | float8 => cases harray
  | numeric => cases harray

/-! ## Tables -/

namespace Table

theorem assemble_rows_ne_nil {rows : List Row} {signature : Signature} {path : Path} {table : Table}
    (h : assemble rows signature (.file path) = .ok table) : table.rows ≠ [] := by
  simp only [assemble] at h
  split at h
  · cases h
  · rename_i hrows
    split at h
    · rename_i values hvalues
      cases h
      rintro rfl
      have hlength := Format.eachNumbered_length hvalues
      exact hrows (List.isEmpty_iff.mpr (List.length_eq_zero_iff.mp hlength.symm))
    · cases h

/-- Rows that are read as values, whatever their numbers, are a table if there are any. -/
theorem assemble_eq_ok {rows : List Row} {signature : Signature} {out : List (List Value)} (hne : rows ≠ [])
    (h : List.Forall₂ (fun row values => ∀ n, coerceRow signature n row = .ok values) rows out) (path : Path) :
    assemble rows signature (.file path) = .ok ⟨signature, out⟩ := by
  have hsome : rows.isEmpty = false := by simpa using hne
  have hrows : Format.eachNumbered (coerceRow signature) 1 rows = .ok out := Format.eachNumbered_eq_ok h
  simp only [assemble, hsome, hrows]
  rfl

theorem assemble_cell_iff {cell : Cell} {type : ColumnType} {path : Path} {table : Table} :
    assemble [[cell]] [type] (.file path) = .ok table ↔
      ∃ value, cell.coerce type = .ok value ∧ table = ⟨[type], [[value]]⟩ := by
  cases hc : cell.coerce type with
  | error cause => simp [assemble, Format.eachNumbered, coerceRow, coerceCells, hc, bind, Except.bind]
  | ok value =>
    simp [assemble, Format.eachNumbered, coerceRow, coerceCells, hc, bind, Except.bind, pure, Except.pure, eq_comm]

end Table

end HostTables
