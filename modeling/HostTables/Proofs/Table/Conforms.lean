/-
  HostTables.Proofs.Table.Conforms — assembled tables hold values of their columns' types.

  A value fits a column when it is null or was built by the constructor of the column's type
  (`Value.Fits`), and a table conforms to a signature when its columns are the signature and
  every row has one fitting value for each column (`Table.Conforms`). Coercion gives fitting
  values (`coerce_fits`), so whatever the raw rows are:
  - `assemble_conforms`: a table that `assemble` returns conforms to the signature it was
    assembled with.
  - `firstValue_fits`: the first value of a one-column table fits that column, also when the
    table has no rows.
-/
import HostTables.Proofs.Outcome
import HostTables.Query.Reading
import Mathlib.Data.List.Forall2

namespace HostTables

/-! ## Values, tables and answers of a type -/

/-- The column type that a value was built for; null has none. -/
def Value.type? : Value → Option ColumnType
  | .null => none
  | .text _ => some .text
  | .int4 _ => some .int4
  | .int8 _ => some .int8
  | .float8 _ => some .float8
  | .numeric _ => some .numeric
  | .textArray _ => some .textArray
  | .int8Array _ => some .int8Array

/-- Null fits every column, any other value only columns of its own type. -/
def Value.Fits (value : Value) (type : ColumnType) : Prop := value = .null ∨ value.type? = some type

/-- The columns are the signature, and every row has a fitting value for each of them. -/
def Table.Conforms (table : Table) (signature : Signature) : Prop :=
  table.columns = signature ∧ ∀ row ∈ table.rows, List.Forall₂ Value.Fits row signature

/-- A scalar answers a signature of exactly one column. -/
def Answer.Conforms : Answer → Signature → Prop
  | .scalar value, signature => ∃ type, signature = [type] ∧ value.Fits type
  | .table typed, signature => typed.Conforms signature

instance (value : Value) (type : ColumnType) : Decidable (value.Fits type) := inferInstanceAs (Decidable (_ ∨ _))

instance (table : Table) (signature : Signature) : Decidable (table.Conforms signature) :=
  inferInstanceAs (Decidable (_ ∧ _))

namespace Value

theorem null_fits (type : ColumnType) : Fits .null type := Or.inl rfl

theorem fits_of_type {value : Value} {type : ColumnType} (h : value.type? = some type) : value.Fits type :=
  Or.inr h

/-- Replacing an empty array by null keeps the value in its column. -/
theorem nullIfEmpty_fits {value : Value} {type : ColumnType} (h : value.Fits type) :
    value.nullIfEmpty.Fits type := by
  unfold nullIfEmpty
  split
  · exact null_fits type
  · exact null_fits type
  · exact h

end Value

/-! ## Coercion -/

theorem coerce_fits {cell : Cell} {type : ColumnType} {value : Value} (h : cell.coerce type = .ok value) :
    value.Fits type := by
  cases cell with
  | null => cases h; exact Value.null_fits type
  | token t =>
    cases type with
    | text => cases h; exact Value.fits_of_type rfl
    | int4 => obtain ⟨n, -, rfl⟩ := map_eq_ok.mp h; exact Value.fits_of_type rfl
    | int8 => obtain ⟨n, -, rfl⟩ := map_eq_ok.mp h; exact Value.fits_of_type rfl
    | float8 => obtain ⟨x, -, rfl⟩ := map_eq_ok.mp h; exact Value.fits_of_type rfl
    | numeric => obtain ⟨n, -, rfl⟩ := map_eq_ok.mp h; exact Value.fits_of_type rfl
    | textArray => cases h
    | int8Array => cases h
  | list items =>
    cases type with
    | textArray => cases h; exact Value.fits_of_type rfl
    | int8Array => obtain ⟨ns, -, rfl⟩ := map_eq_ok.mp h; exact Value.fits_of_type rfl
    | text => cases h
    | int4 => cases h
    | int8 => cases h
    | float8 => cases h
    | numeric => cases h

namespace Table

/-- Equally many cells and columns give one fitting value for each column. -/
theorem coerceCells_fits {row : Nat} {signature : Signature} :
    ∀ {column : Nat} {cells : Row} {values : List Value}, cells.length = signature.length →
      coerceCells row column cells signature = .ok values → List.Forall₂ Value.Fits values signature := by
  induction signature with
  | nil =>
    intro column cells values hl h
    cases cells with
    | nil => cases h; exact .nil
    | cons cell cells => cases hl
  | cons type types ih =>
    intro column cells values hl h
    cases cells with
    | nil => cases hl
    | cons cell cells =>
      simp only [coerceCells] at h
      split at h
      · cases h
      · rename_i value hv
        obtain ⟨more, hmore, h⟩ := bind_eq_ok.mp h
        cases h
        exact .cons (coerce_fits hv) (ih (Nat.succ.inj hl) hmore)

theorem coerceRow_fits {signature : Signature} {row : Nat} {cells : Row} {values : List Value}
    (h : coerceRow signature row cells = .ok values) : List.Forall₂ Value.Fits values signature := by
  unfold coerceRow at h
  split at h
  · rename_i hl; exact coerceCells_fits hl h
  · cases h

/-! ## Assembled tables -/

theorem empty_conforms (signature : Signature) : (empty signature).Conforms signature :=
  ⟨rfl, fun _ h => by cases h⟩

theorem assemble_conforms {rows : List Row} {signature : Signature} {source : Source} {table : Table}
    (h : assemble rows signature source = .ok table) : table.Conforms signature := by
  cases source with
  | disabled => cases h; exact empty_conforms signature
  | file path =>
    simp only [assemble] at h
    split at h
    · cases h
    · split at h
      · rename_i values hv
        cases h
        refine ⟨rfl, fun row hrow => ?_⟩
        obtain ⟨n, cells, -, hc⟩ := Format.mem_of_eachNumbered hv row hrow
        exact coerceRow_fits hc
      · cases h

theorem firstValue_fits {table : Table} {type : ColumnType} (h : table.Conforms [type]) :
    table.firstValue.Fits type := by
  unfold firstValue
  rcases hr : table.rows with _ | ⟨row, rest⟩
  · exact Value.null_fits type
  · have hrow := h.2 row (by rw [hr]; exact List.mem_cons_self)
    cases hrow with
    | cons hv hnil => exact hv

end Table

/-- An answer taken from a table of the reading's format conforms to the reading. -/
theorem Reading.ofTable_conforms (reading : Reading) {table : Table}
    (h : table.Conforms reading.format.signature) : (reading.ofTable table).Conforms reading.signature := by
  cases reading with
  | value type => exact ⟨type, rfl, Table.firstValue_fits h⟩
  | array type => exact ⟨type, rfl, Value.nullIfEmpty_fits (Table.firstValue_fits h)⟩
  | table format => exact h

theorem Reading.off_conforms (reading : Reading) : reading.off.Conforms reading.signature := by
  cases reading with
  | value type => exact ⟨type, rfl, Value.null_fits type⟩
  | array type => exact ⟨type, rfl, Value.null_fits type⟩
  | table format => exact Table.empty_conforms format.signature

end HostTables
