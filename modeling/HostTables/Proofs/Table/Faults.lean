/-
  HostTables.Proofs.Table.Faults — what stands in the way of assembling a table.

  A source that is on has no table if it has no rows, or if one of its rows has the wrong width
  or a cell that is no value of its column's type (`assemble_eq_error`, `coerceRow_eq_error`). The cells of
  a row are read like the lines of a file, each by its number (`coerceCells_eq_eachNumbered`).
  When the cell is of the form its column asks for, a token in it is to blame: the conversion
  to the numbers of the column refuses it (`Rejects`, `rejects_of_coerce`). So rows that a format
  made for their signature fail by such a token or by there being none
  (`assemble_eq_error_of_takes`).
-/
import HostTables.Proofs.Format.Signature
import HostTables.Table.Assemble

namespace HostTables

/-! ## Tokens that are refused -/

/-- The tokens that a cell is made of. -/
def Cell.tokens : Cell → List Text
  | .null => []
  | .token t => [t]
  | .list items => items

/-- The token is no number of the column's type, or of the items of its arrays. Text takes every
    token. -/
inductive ColumnType.Rejects : ColumnType → Text → CoerceError → Prop
  | int4 {t : Text} {cause : CoerceError} : Coerce.toInt32 t = .error cause → Rejects .int4 t cause
  | int8 {t : Text} {cause : CoerceError} : Coerce.toInt64 t = .error cause → Rejects .int8 t cause
  | float8 {t : Text} {cause : CoerceError} : Coerce.toDouble t = .error cause → Rejects .float8 t cause
  | numeric {t : Text} {cause : CoerceError} : Coerce.toNumeric t = .error cause → Rejects .numeric t cause
  | int8Item {t : Text} {cause : CoerceError} : Coerce.toInt64 t = .error cause → Rejects .int8Array t cause

theorem rejects_of_coerce {cell : Cell} {type : ColumnType} {cause : CoerceError} (hs : cell.Suits type)
    (h : cell.coerce type = .error cause) : ∃ t ∈ cell.tokens, type.Rejects t cause := by
  cases hs with
  | @token t _ hscalar =>
    refine ⟨t, List.mem_singleton_self t, ?_⟩
    cases type with
    | text => cases h
    | int4 => exact .int4 (map_eq_error.mp h)
    | int8 => exact .int8 (map_eq_error.mp h)
    | float8 => exact .float8 (map_eq_error.mp h)
    | numeric => exact .numeric (map_eq_error.mp h)
    | textArray => cases hscalar
    | int8Array => cases hscalar
  | @list items _ harray =>
    cases type with
    | textArray => cases h
    | int8Array =>
      obtain ⟨t, ht, hf⟩ := mapM_eq_error (map_eq_error.mp h)
      exact ⟨t, ht, .int8Item hf⟩
    | text => cases harray
    | int4 => cases harray
    | int8 => cases harray
    | float8 => cases harray
    | numeric => cases harray

/-! ## Rows and tables -/

namespace Table

/-- The value of a cell in a column of a row, or a report that says where the cell stands. -/
def coerceAt (row column : Nat) (cell : Cell × ColumnType) : Except ParseError Value :=
  (cell.1.coerce cell.2).mapError (ParseError.value row column)

theorem coerceCells_eq_eachNumbered (row : Nat) : ∀ (column : Nat) (cells : Row) (signature : Signature),
    coerceCells row column cells signature = Format.eachNumbered (coerceAt row) column (cells.zip signature) := by
  intro column cells
  induction cells generalizing column with
  | nil => intro signature; rfl
  | cons cell rest ih =>
    intro signature
    cases signature with
    | nil => rfl
    | cons type types =>
      rw [List.zip_cons_cons, coerceCells, Format.eachNumbered_cons, ih]
      show _ = (cell.coerce type).mapError (ParseError.value row column) >>= _
      cases cell.coerce type <;> rfl

theorem coerceCells_eq_error {signature : Signature} {row column : Nat} {cells : Row} {e : ParseError}
    (h : coerceCells row column cells signature = .error e) :
    ∃ j cell type cause, cells[j]? = some cell ∧ signature[j]? = some type ∧ cell.coerce type = .error cause ∧
      e = .value row (column + j) cause := by
  rw [coerceCells_eq_eachNumbered] at h
  obtain ⟨j, ⟨cell, type⟩, hplace, hfault, -⟩ := Format.eachNumbered_eq_error_iff_at.mp h
  obtain ⟨hcell, htype⟩ := List.getElem?_zip_eq_some.mp hplace
  obtain ⟨cause, hcause, rfl⟩ := mapError_eq_error.mp hfault
  exact ⟨j, cell, type, cause, hcell, htype, hcause, rfl⟩

theorem coerceRow_eq_error {signature : Signature} {row : Nat} {cells : Row} {e : ParseError}
    (h : coerceRow signature row cells = .error e) :
    (cells.length ≠ signature.length ∧ e = .columnCount row signature.length cells.length) ∨
      ∃ j cell type cause, cells[j]? = some cell ∧ signature[j]? = some type ∧ cell.coerce type = .error cause ∧
        e = .value row (j + 1) cause := by
  unfold coerceRow at h
  split at h
  · obtain ⟨j, cell, type, cause, hcell, htype, hcause, rfl⟩ := coerceCells_eq_error h
    exact Or.inr ⟨j, cell, type, cause, hcell, htype, hcause, by rw [Nat.add_comm]⟩
  · rename_i hl
    cases h
    exact Or.inl ⟨hl, rfl⟩

theorem assemble_eq_error {rows : List Row} {signature : Signature} {path : Path} {e : TableError}
    (h : assemble rows signature (.file path) = .error e) :
    (rows = [] ∧ e = .noData path) ∨
      ∃ i cells cause, rows[i]? = some cells ∧ coerceRow signature (i + 1) cells = .error cause ∧
        e = .malformed path cause := by
  simp only [assemble] at h
  split at h
  · rename_i hrows
    cases h
    exact Or.inl ⟨List.isEmpty_iff.mp hrows, rfl⟩
  · split at h
    · cases h
    · rename_i cause hcause
      cases h
      obtain ⟨before, cells, after, rfl, hcells, -⟩ := Format.eachNumbered_eq_error.mp hcause
      refine Or.inr ⟨before.length, cells, cause, by simp, ?_, rfl⟩
      rwa [Nat.add_comm] at hcells

/-- With cells of the form that their columns ask for, only a token that its column's conversion
    refuses stops the assembly of rows that are there. -/
theorem assemble_eq_error_of_takes {format : Format} {rows : List Row} {path : Path} {e : TableError}
    (hrows : ∀ row ∈ rows, List.Forall₂ format.Takes row format.signature)
    (h : assemble rows format.signature (.file path) = .error e) :
    (rows = [] ∧ e = .noData path) ∨
      ∃ i j cells cell type t cause, rows[i]? = some cells ∧ cells[j]? = some cell ∧
        format.signature[j]? = some type ∧ t ∈ cell.tokens ∧ type.Rejects t cause ∧
        e = .malformed path (.value (i + 1) (j + 1) cause) := by
  rcases assemble_eq_error h with hnone | ⟨i, cells, fault, hcells, hfault, rfl⟩
  · exact Or.inl hnone
  · have htakes := hrows cells (List.mem_of_getElem? hcells)
    rcases coerceRow_eq_error hfault with ⟨hl, -⟩ | ⟨j, cell, type, cause, hcell, htype, hcause, rfl⟩
    · exact absurd htakes.length_eq hl
    · obtain ⟨hj, rfl⟩ := List.getElem?_eq_some_iff.mp hcell
      obtain ⟨hj', rfl⟩ := List.getElem?_eq_some_iff.mp htype
      rcases htakes.get hj hj' with hs | ⟨-, hnull⟩
      · obtain ⟨t, ht, hreject⟩ := rejects_of_coerce hs hcause
        exact Or.inr ⟨i, j, cells, _, _, t, cause, hcells, hcell, htype, ht, hreject, rfl⟩
      · have hgot : cells[j] = Cell.null := hnull
        rw [hgot] at hcause
        cases hcause

end Table

end HostTables
