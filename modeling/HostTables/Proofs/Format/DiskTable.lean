/-
  HostTables.Proofs.Format.DiskTable — disks as kernels of different age write them, in one table.

  A line of diskstats has the tokens of one of three kernels (`Diskstats.Known`); the columns that its kernel does not
  write yet are null (`Diskstats.cells`). Whether a line is read and what it is read as depends on nothing else
  in the file (`row_eq_ok_iff`). The nulls fit every column, so the values of a line are a row of the table
  exactly when its tokens are the numbers that their columns ask for (`readable_cells_iff`).

  `disk_lines_padded`: the file is read when all lines are known, in any mixture. In its table each token is the
  value of its column and not null, and null stands behind the last token of a line and nowhere else.
-/
import HostTables.Format
import HostTables.Proofs.Coerce.Integers
import HostTables.Proofs.Table.FirstFault

namespace HostTables.Format.Diskstats

/-! ## Lines -/

/-- The line has the tokens of a kernel without discards and flushes, of one without flushes, or of one with both. -/
def Known (line : Text) : Prop :=
  (Text.tokens line).length = 14 ∨ (Text.tokens line).length = 18 ∨ (Text.tokens line).length = 20

instance (line : Text) : Decidable (Known line) := inferInstanceAs (Decidable (_ ∨ _))

/-- The tokens of the line, and null in the columns behind them. -/
def cells (line : Text) : Row := tokenRow (Text.tokens line) ++ List.replicate (20 - (Text.tokens line).length) .null

/-- What a token says in a column of the type. The columns of diskstats are a name and numbers of two widths. -/
inductive Says : ColumnType → Text → Value → Prop
  | text {token : Text} : Says .text token (.text token)
  | int8 {token : Text} {word : Signed 64} : Coerce.Stands64 token word.val → Says .int8 token (.int8 word)
  | numeric {token : Text} {word : Signed 128} : Decimal.Denotes token word.val → Says .numeric token (.numeric word)

/-- The tokens are numbers in range where their columns ask for numbers. -/
def Numbers (line : Text) : Prop :=
  ∀ (j : Nat) (token : Text) (type : ColumnType), (Text.tokens line)[j]? = some token → signature[j]? = some type →
    ∃ value, Says type token value

/-- The values are those of the tokens of the line, none of them null, and null behind them. -/
structure Fills (line : Text) (values : List Value) : Prop where
  width : values.length = 20
  token : ∀ (j : Nat) (token : Text), (Text.tokens line)[j]? = some token → ∃ type value, signature[j]? = some type ∧
    values[j]? = some value ∧ (Cell.token token).coerce type = .ok value ∧ Says type token value ∧ value ≠ .null
  missing : ∀ j, (Text.tokens line).length ≤ j → j < 20 → values[j]? = some .null

variable {line : Text} {n : Nat}

theorem row_eq_ok_iff {row : Row} : Diskstats.row n line = .ok row ↔ Known line ∧ row = cells line := by
  have hwidth : widths.accepts (Text.tokens line).length = true ↔ Known line := by
    simp [widths, Arity.accepts, Known]
  unfold Diskstats.row
  by_cases hknown : Known line
  · simp [hwidth.mpr hknown, hknown, cells, columns, eq_comm]
  · simp [mt hwidth.mp hknown, hknown]

theorem length_cells (h : Known line) : (cells line).length = 20 := by
  simp only [cells, tokenRow, List.length_append, List.length_map, List.length_replicate]
  unfold Known at h
  omega

theorem getElem?_cells_of_token {j : Nat} {token : Text} (h : (Text.tokens line)[j]? = some token) :
    (cells line)[j]? = some (.token token) := by
  have hj : j < (tokenRow (Text.tokens line)).length := by simpa [tokenRow] using (List.getElem?_eq_some_iff.mp h).1
  rw [cells, List.getElem?_append_left hj, tokenRow, List.getElem?_map, h, Option.map_some]

theorem getElem?_cells_of_le {j : Nat} (hj : (Text.tokens line).length ≤ j) (hcolumn : j < 20) :
    (cells line)[j]? = some .null := by
  have hbehind : (tokenRow (Text.tokens line)).length ≤ j := by simpa [tokenRow] using hj
  have hmissing : j - (Text.tokens line).length < 20 - (Text.tokens line).length := by omega
  rw [cells, List.getElem?_append_right hbehind]
  simp [tokenRow, hmissing]

/-! ## Values -/

theorem coerce_eq_ok_iff {type : ColumnType} (htype : type ∈ signature) {token : Text} {value : Value} :
    (Cell.token token).coerce type = .ok value ↔ Says type token value := by
  have hcolumns : ∀ column ∈ signature, column = .int8 ∨ column = .text ∨ column = .numeric := by decide
  rcases hcolumns type htype with rfl | rfl | rfl
  · show Value.int8 <$> Coerce.toInt64 token = .ok value ↔ _
    simp only [map_eq_ok, Coerce.toInt64_eq_ok_iff]
    constructor
    · rintro ⟨word, hword, rfl⟩
      exact .int8 hword
    · intro h
      cases h with
      | int8 hword => exact ⟨_, hword, rfl⟩
  · show Except.ok (Value.text token) = .ok value ↔ _
    rw [Except.ok.injEq]
    constructor
    · rintro rfl
      exact .text
    · intro h
      cases h
      rfl
  · show Value.numeric <$> Coerce.signed 128 "numeric" token = .ok value ↔ _
    simp only [map_eq_ok, Coerce.signed_eq_ok_iff]
    constructor
    · rintro ⟨word, hword, rfl⟩
      exact .numeric hword
    · intro h
      cases h with
      | numeric hword => exact ⟨_, hword, rfl⟩

theorem Known.length_le (h : Known line) : (Text.tokens line).length ≤ 20 := by
  unfold Known at h
  omega

theorem readable_cells_iff (h : Known line) : Table.Readable signature (cells line) ↔ Numbers line := by
  constructor
  · intro hreadable j token type htoken htype
    obtain ⟨value, hvalue⟩ := hreadable.2 j _ type (getElem?_cells_of_token htoken) htype
    exact ⟨value, (coerce_eq_ok_iff (List.mem_of_getElem? htype)).mp hvalue⟩
  · intro hnumbers
    refine ⟨length_cells h, fun j cell type hcell htype => ?_⟩
    rcases Nat.lt_or_ge j (Text.tokens line).length with hj | hj
    · have htoken : (Text.tokens line)[j]? = some (Text.tokens line)[j] := List.getElem?_eq_getElem hj
      rw [getElem?_cells_of_token htoken] at hcell
      cases hcell
      obtain ⟨value, hsays⟩ := hnumbers j _ type htoken htype
      exact ⟨value, (coerce_eq_ok_iff (List.mem_of_getElem? htype)).mpr hsays⟩
    · have hcolumn : j < 20 := (List.getElem?_eq_some_iff.mp htype).1
      rw [getElem?_cells_of_le hj hcolumn] at hcell
      cases hcell
      exact ⟨.null, rfl⟩

theorem fills_of_reads {values : List Value} (hknown : Known line)
    (h : Table.Reads signature (cells line) values) : Fills line values := by
  obtain ⟨-, hwidth, hread⟩ := h
  have hcolumn : ∀ j < 20, ∃ type, signature[j]? = some type := fun j hj =>
    ⟨_, List.getElem?_eq_getElem hj⟩
  refine ⟨hwidth, fun j token htoken => ?_, fun j hj hless => ?_⟩
  · have hj : j < 20 := Nat.lt_of_lt_of_le (List.getElem?_eq_some_iff.mp htoken).1 hknown.length_le
    obtain ⟨type, htype⟩ := hcolumn j hj
    obtain ⟨value, hvalue, hcoerce⟩ := hread j _ type (getElem?_cells_of_token htoken) htype
    have hthere : Cell.token token ≠ .null := nofun
    exact ⟨type, value, htype, hvalue, hcoerce, (coerce_eq_ok_iff (List.mem_of_getElem? htype)).mp hcoerce,
      coerce_ne_null hthere hcoerce⟩
  · obtain ⟨type, htype⟩ := hcolumn j hless
    obtain ⟨value, hvalue, hcoerce⟩ := hread j _ type (getElem?_cells_of_le hj hless) htype
    cases hcoerce
    exact hvalue

theorem Fills.value {values : List Value} (h : Fills line values) {j : Nat} {token : Text} {type : ColumnType}
    {value : Value} (htoken : (Text.tokens line)[j]? = some token) (htype : signature[j]? = some type)
    (hvalue : (Cell.token token).coerce type = .ok value) : values[j]? = some value := by
  obtain ⟨other, found, hother, hfound, hcoerce, -⟩ := h.token j token htoken
  obtain rfl : type = other := Option.some.inj (htype.symm.trans hother)
  obtain rfl : value = found := Except.ok.inj (hvalue.symm.trans hcoerce)
  exact hfound

/-! ## Tables -/

theorem rows_eq_ok_iff {content : Text} {rows : List Row} : (Format.kernel .diskstats).rows content = .ok rows ↔
    (∀ line ∈ Text.lines content, Known line) ∧ rows = (Text.lines content).map cells := by
  show eachNumbered Diskstats.row 1 (Text.lines content) = .ok rows ↔ _
  refine eachNumbered_eq_ok_iff ?_
  intro n line row
  exact row_eq_ok_iff

/-- A file is read exactly when each of its lines is known, whatever stands on the others: the rows are the tokens
    of the lines, with nulls behind them. They are a table exactly when there are any and the tokens are numbers where
    numbers are asked for, and then each row of the table has the values of the tokens of its line, which are never
    null, and null in all other columns. -/
theorem disk_lines_padded (content : Text) (path : Path) :
    ((∃ rows, (Format.kernel .diskstats).rows content = .ok rows) ↔ ∀ line ∈ Text.lines content, Known line) ∧
    ∀ rows, (Format.kernel .diskstats).rows content = .ok rows →
      rows = (Text.lines content).map cells ∧
      ((∃ table, Table.assemble rows signature (.file path) = .ok table) ↔
        Text.lines content ≠ [] ∧ ∀ line ∈ Text.lines content, Numbers line) ∧
      ∀ table, Table.assemble rows signature (.file path) = .ok table →
        table.columns = signature ∧ table.rows.length = (Text.lines content).length ∧
        ∀ (i : Nat) (line : Text), (Text.lines content)[i]? = some line →
          ∃ values, table.rows[i]? = some values ∧ Fills line values := by
  simp only [rows_eq_ok_iff]
  refine ⟨by simp, ?_⟩
  rintro rows ⟨hknown, rfl⟩
  refine ⟨rfl, ?_, ?_⟩
  · rw [Table.exists_table_iff, List.forall_mem_map, ne_eq, List.map_eq_nil_iff]
    refine and_congr_right' (forall₂_congr fun line hline => ?_)
    exact readable_cells_iff (hknown line hline)
  · intro table htable
    obtain ⟨-, hcolumns, hread⟩ := Table.assemble_eq_ok_iff.mp htable
    obtain ⟨hlength, hrows⟩ := eachNumbered_eq_ok_iff_at.mp hread
    refine ⟨hcolumns, by rw [hlength, List.length_map], fun i line hline => ?_⟩
    have hcells : ((Text.lines content).map cells)[i]? = some (cells line) := by
      rw [List.getElem?_map, hline, Option.map_some]
    obtain ⟨values, hvalues, hrow⟩ := hrows i (cells line) hcells
    exact ⟨values, hvalues,
      fills_of_reads (hknown line (List.mem_of_getElem? hline)) (Table.coerceRow_eq_ok_iff.mp hrow)⟩

/-- A disk with discards and flushes. -/
def fullDisk : Text := "8 0 sda 1 2 3 4 5 6 7 8 9 10 11 12 13 14 15 0 0".toList

/-- A disk with discards. -/
def discardDisk : Text := "8 1 sda1 1 2 3 4 5 6 7 8 9 10 11 0 0 0 0".toList

/-- A disk without either. -/
def plainDisk : Text := "7 0 loop0 0 0 0 0 0 0 0 0 0 0 0".toList

/-- The disks of three kernels, the oldest between the others. -/
def mixedDisks : Text := Text.joined ['\n'] [fullDisk, plainDisk, discardDisk]

/-- The disks are in one table. The second has null from its fifteenth column on; the third has there the zero it was
    written with, and null in the last column, where the first has a zero. -/
theorem mixed_disks_read : ∃ rows table, (Format.kernel .diskstats).rows mixedDisks = .ok rows ∧
    Table.assemble rows signature (.file (.ofString "/proc/diskstats")) = .ok table ∧
    table.rows[0]?.bind (·[19]?) = some (.int8 ⟨0, by decide, by decide⟩) ∧
    table.rows[1]?.bind (·[14]?) = some .null ∧
    table.rows[2]?.bind (·[14]?) = some (.numeric ⟨0, by decide, by decide⟩) ∧
    table.rows[2]?.bind (·[19]?) = some .null := by
  obtain ⟨known, read⟩ := disk_lines_padded mixedDisks (.ofString "/proc/diskstats")
  have hknown : ∀ line ∈ Text.lines mixedDisks, Known line := by decide +kernel
  have hvalues : ∀ line ∈ Text.lines mixedDisks, (Table.coerceRow signature 1 (cells line)).isOk = true := by
    decide +kernel
  have hnumbers : ∀ line ∈ Text.lines mixedDisks, Numbers line := by
    intro line hline
    rw [← readable_cells_iff (hknown line hline), Table.readable_iff]
    exact isOk_iff.mp (hvalues line hline)
  obtain ⟨rows, hrows⟩ := known.mpr hknown
  obtain ⟨-, assembled, filled⟩ := read rows hrows
  obtain ⟨table, htable⟩ := assembled.mpr ⟨by decide +kernel, hnumbers⟩
  obtain ⟨-, -, hfilled⟩ := filled table htable
  obtain ⟨full, hfull, hfills⟩ := hfilled 0 fullDisk (by decide +kernel)
  obtain ⟨plain, hplain, hnulls⟩ := hfilled 1 plainDisk (by decide +kernel)
  obtain ⟨discard, hdiscard, hzeros⟩ := hfilled 2 discardDisk (by decide +kernel)
  refine ⟨rows, table, hrows, htable, ?_, ?_, ?_, ?_⟩
  · rw [hfull]
    exact hfills.value (show (Text.tokens fullDisk)[19]? = some ['0'] by decide +kernel) rfl (by decide +kernel)
  · rw [hplain]
    exact hnulls.missing 14 (by decide +kernel) (by decide)
  · rw [hdiscard]
    exact hzeros.value (show (Text.tokens discardDisk)[14]? = some ['0'] by decide +kernel) rfl (by decide +kernel)
  · rw [hdiscard]
    exact hzeros.missing 19 (by decide +kernel) (by decide)

end HostTables.Format.Diskstats
