/-
  HostTables.Proofs.Format.ValueLists — one file read as a column of values and as one array.

  A list of values can be written with a line for each of them or with all of them on one line
  (`ValuesWritten`); either way it is read as that list (`valuesOf_written`). On a single line the
  column and the array are made of the same tokens, and an array is coerced item by item
  (`items_coerce`). So the two tables hold the same values, or both are refused for the same token; only
  a line without tokens is an empty array and no table of values (`sameValues_of_tokens`).
  `column_and_array_agree` has this, and what becomes of several lines.
-/
import HostTables.Proofs.Table.Conforms
import HostTables.Proofs.Table.Filled
import HostTables.Proofs.Text.Fields

namespace HostTables

/-! ## Arrays and their items -/

/-- The type of the items of an array, and the type of the array. -/
inductive ItemType : ColumnType → ColumnType → Prop
  | text : ItemType .text .textArray
  | int8 : ItemType .int8 .int8Array

/-- The items of an array as values of a column; no other value has any. -/
def Value.items : Value → List Value
  | .textArray items => items.map .text
  | .int8Array items => items.map .int8
  | _ => []

variable {item array : ColumnType}

/-- An array is coerced item by item. -/
theorem items_coerce (h : ItemType item array) (tokens : List Text) :
    Value.items <$> (Cell.list tokens).coerce array = tokens.mapM fun t => (Cell.token t).coerce item := by
  cases h with
  | text =>
    have hpure : tokens.mapM (fun t => (pure (.text t) : Except CoerceError Value)) = pure (tokens.map .text) :=
      List.mapM_pure
    exact hpure.symm
  | int8 =>
    show Value.items <$> (Value.int8Array <$> tokens.mapM Coerce.toInt64) =
      tokens.mapM fun t => Value.int8 <$> Coerce.toInt64 t
    rw [mapM_mapped]
    cases tokens.mapM Coerce.toInt64 <;> rfl

/-! ## Tables -/

namespace Table

/-- A row for each token. -/
def columnOf (tokens : List Text) : List Row := tokens.map fun t => [.token t]

theorem coerceRow_cell (type : ColumnType) (n : Nat) (cell : Cell) :
    coerceRow [type] n [cell] = ((fun value => [value]) <$> cell.coerce type).mapError (.value n 1) := by
  cases hc : cell.coerce type with
  | error cause => simp [coerceRow, coerceCells, hc, Functor.map, Except.map, Except.mapError]
  | ok value =>
    simp [coerceRow, coerceCells, hc, Functor.map, Except.map, Except.mapError, bind, Except.bind, pure, Except.pure]

/-- A column is read as the values of its tokens, up to the first token that is refused. -/
theorem column_ends (type : ColumnType) (tokens : List Text) : ∀ first,
    Ends (fun values => Format.eachNumbered (coerceRow [type]) first (columnOf tokens) = .ok (values.map fun v => [v]))
      (fun cause => ∃ n, Format.eachNumbered (coerceRow [type]) first (columnOf tokens) = .error (.value n 1 cause))
      (tokens.mapM fun t => (Cell.token t).coerce type) := by
  induction tokens with
  | nil => intro first; rfl
  | cons t rest ih =>
    intro first
    have hrest := ih (first + 1)
    have hrow := coerceRow_cell type first (.token t)
    rw [List.mapM_cons]
    cases ht : (Cell.token t).coerce type with
    | error cause =>
      rw [ht] at hrow
      exact ⟨first, bind_eq_error.mpr (Or.inl hrow)⟩
    | ok value =>
      rw [ht] at hrow
      cases hm : rest.mapM fun t => (Cell.token t).coerce type with
      | error cause =>
        rw [hm] at hrest
        obtain ⟨n, hn⟩ := hrest
        exact ⟨n, bind_eq_error.mpr (Or.inr ⟨_, hrow, bind_eq_error.mpr (Or.inl hn)⟩)⟩
      | ok values =>
        rw [hm] at hrest
        exact bind_eq_ok.mpr ⟨_, hrow, bind_eq_ok.mpr ⟨_, hrest, rfl⟩⟩

theorem assemble_cell_eq_error {cell : Cell} {type : ColumnType} {cause : CoerceError}
    (h : cell.coerce type = .error cause) (path : Path) :
    assemble [[cell]] [type] (.file path) = .error (.malformed path (.value 1 1 cause)) := by
  have hrow : coerceRow [type] 1 [cell] = .error (.value 1 1 cause) := by
    rw [coerceRow_cell, h]
    rfl
  have hrows : Format.eachNumbered (coerceRow [type]) 1 [[cell]] = .error (.value 1 1 cause) :=
    bind_eq_error.mpr (Or.inl hrow)
  simp [assemble, hrows]

/-- What becomes of the same tokens as a column and as an array: they hold the same values, or the same
    token is refused. Without tokens the array is empty, and the column has no data. -/
inductive SameValues (path : Path) (item array : ColumnType) (tokens : List Text) :
    Except TableError Table → Except TableError Table → Prop
  | values {value : Value} : tokens ≠ [] → value.type? = some array →
      SameValues path item array tokens (.ok ⟨[item], value.items.map fun v => [v]⟩) (.ok ⟨[array], [[value]]⟩)
  | refused {row : Nat} {cause : CoerceError} :
      SameValues path item array tokens (.error (.malformed path (.value row 1 cause)))
        (.error (.malformed path (.value 1 1 cause)))
  | none {value : Value} : tokens = [] → value.type? = some array → value.items = [] →
      SameValues path item array tokens (.error (.noData path)) (.ok ⟨[array], [[value]]⟩)

theorem type?_of_coerce_list (h : ItemType item array) {tokens : List Text} {value : Value}
    (hc : (Cell.list tokens).coerce array = .ok value) : value.type? = some array := by
  cases h with
  | text =>
    cases hc
    rfl
  | int8 =>
    obtain ⟨words, -, rfl⟩ := map_eq_ok.mp hc
    rfl

theorem sameValues_of_tokens (h : ItemType item array) (tokens : List Text) (path : Path) :
    SameValues path item array tokens (assemble (columnOf tokens) [item] (.file path))
      (assemble [[.list tokens]] [array] (.file path)) := by
  have hitems := items_coerce h tokens
  have hcolumn := column_ends item tokens 1
  rw [← hitems] at hcolumn
  cases hc : (Cell.list tokens).coerce array with
  | error cause =>
    rw [hc] at hcolumn hitems
    obtain ⟨row, hrow⟩ := hcolumn
    have hne : (columnOf tokens).isEmpty = false := by
      cases tokens with
      | nil => cases hitems
      | cons t rest => rfl
    have hassemble : assemble (columnOf tokens) [item] (.file path) = .error (.malformed path (.value row 1 cause)) := by
      simp [assemble, hne, hrow]
    rw [hassemble, assemble_cell_eq_error hc]
    exact .refused
  | ok value =>
    rw [hc] at hcolumn hitems
    rw [assemble_cell_iff.mpr ⟨value, hc, rfl⟩]
    have htype := type?_of_coerce_list h hc
    cases tokens with
    | nil =>
      have hnil : value.items = [] := Except.ok.inj hitems
      exact .none rfl htype hnil
    | cons t rest =>
      have hrows : Format.eachNumbered (coerceRow [item]) 1 (columnOf (t :: rest)) =
          .ok (value.items.map fun v => [v]) :=
        hcolumn
      have hassemble : assemble (columnOf (t :: rest)) [item] (.file path) =
          .ok ⟨[item], value.items.map fun v => [v]⟩ := by
        have hne : (columnOf (t :: rest)).isEmpty = false := rfl
        simp [assemble, hne, hrows]
      rw [hassemble]
      exact .values (List.cons_ne_nil t rest) htype

end Table

/-! ## Files -/

namespace Format

/-- The values of a list in a file, each on a line of its own or all on one line, with empty lines
    anywhere. -/
inductive ValuesWritten (values : List Text) (content : Text) : Prop
  | onePerLine : Text.Spread '\n' values content → ValuesWritten values content
  | onOneLine {line : Text} : Text.Spread ' ' values line → Text.Spread '\n' [line] content →
      ValuesWritten values content

/-- The values can stand in a token and on a line. -/
def PlainValues (values : List Text) : Prop := ∀ value ∈ values, value ≠ [] ∧ ' ' ∉ value ∧ '\n' ∉ value

instance (values : List Text) : Decidable (PlainValues values) := inferInstanceAs (Decidable (∀ _ ∈ _, _))

theorem valuesOf_of_line {content line : Text} (h : Text.lines content = [line]) :
    valuesOf content = Text.tokens line := by
  simp [valuesOf, h]

theorem valuesOf_of_lines {content : Text} (h : (Text.lines content).length ≠ 1) :
    valuesOf content = Text.lines content := by
  unfold valuesOf
  split
  · rename_i line hline
    rw [hline] at h
    exact absurd rfl h
  · rfl

theorem valuesOf_written {values : List Text} {content : Text} (hplain : PlainValues values)
    (h : ValuesWritten values content) : valuesOf content = values := by
  cases h with
  | onePerLine hspread =>
    have hlines : Text.lines content = values := Text.fields_of_spread hspread
    by_cases hone : values.length = 1
    · -- A single value is the only token of its line.
      obtain ⟨value, rfl⟩ := List.length_eq_one_iff.mp hone
      obtain ⟨hne, hspace, -⟩ := hplain value List.mem_cons_self
      rw [valuesOf_of_line hlines]
      exact Text.fields_of_not_mem hspace hne
    · rw [valuesOf_of_lines (by rwa [hlines]), hlines]
  | onOneLine hline hspread =>
    rw [valuesOf_of_line (Text.fields_of_spread hspread)]
    exact Text.fields_of_spread hline

/-- All plain values can be written in both ways. -/
theorem exists_valuesWritten {values : List Text} (h : PlainValues values) :
    (∃ content, Text.Spread '\n' values content) ∧
      ∃ line content, Text.Spread ' ' values line ∧ Text.Spread '\n' [line] content := by
  refine ⟨⟨_, Text.spread_joined fun v hv => ⟨(h v hv).1, (h v hv).2.2⟩⟩, ?_⟩
  have hspread : Text.Spread ' ' values (' ' :: Text.joined [' '] values) :=
    .gap (Text.spread_joined fun v hv => ⟨(h v hv).1, (h v hv).2.1⟩)
  have hline : '\n' ∉ Text.joined [' '] values := Text.not_mem_joined (by decide) fun v hv => (h v hv).2.2
  exact ⟨_, _, hspread, .last (List.cons_ne_nil _ _) (by simpa using hline)⟩

theorem array_rows_of_line {content line : Text} (h : Text.lines content = [line]) (type : ColumnType) :
    (Format.array type).rows content = .ok [[.list (Text.tokens line)]] := by
  rw [Format.rows, singleLine_eq_ok_iff.mpr h]
  rfl

theorem rows_of_lines {content : Text} (h : (Text.lines content).length ≠ 1) (type : ColumnType) :
    (Format.array type).rows content = .error (.lineCount (.exactly 1) (Text.lines content).length) ∧
    (Format.scalar type).rows content = .error (.lineCount (.exactly 1) (Text.lines content).length) ∧
    (Format.values type).rows content = .ok (Table.columnOf (Text.lines content)) := by
  have hnot := singleLine_of_lines h
  refine ⟨?_, ?_, ?_⟩
  · rw [Format.rows, hnot]
    rfl
  · rw [Format.rows, hnot]
    rfl
  · rw [Format.rows, valuesOf_of_lines h]
    rfl

/-- Values are read as they were written, one for each line or all on one line. The column and the array of
    a single line are made of its tokens and hold the same values. Several lines are no array and no single
    value, and each of them is a value of the column as it stands. -/
theorem column_and_array_agree :
    (∀ values : List Text, PlainValues values →
      (∃ content, Text.Spread '\n' values content) ∧
      (∃ line content, Text.Spread ' ' values line ∧ Text.Spread '\n' [line] content) ∧
      ∀ content, ValuesWritten values content → ∀ type,
        (Format.values type).rows content = .ok (values.map fun value => [.token value])) ∧
    (∀ content line, Text.lines content = [line] → ∃ tokens : List Text,
      (∀ type, (Format.array type).rows content = .ok [[.list tokens]]) ∧
      (∀ type, (Format.values type).rows content = .ok (tokens.map fun t => [.token t])) ∧
      ∀ item array, ItemType item array → ∀ path,
        Table.SameValues path item array tokens
          (Table.assemble (tokens.map fun t => [.token t]) [item] (.file path))
          (Table.assemble [[.list tokens]] [array] (.file path))) ∧
    (∀ content, 2 ≤ (Text.lines content).length → ∀ type,
      (Format.array type).rows content = .error (.lineCount (.exactly 1) (Text.lines content).length) ∧
      (Format.scalar type).rows content = .error (.lineCount (.exactly 1) (Text.lines content).length) ∧
      (Format.values type).rows content = .ok ((Text.lines content).map fun line => [.token line])) := by
  refine ⟨?_, ?_, ?_⟩
  · intro values hplain
    obtain ⟨hlines, hline⟩ := exists_valuesWritten hplain
    refine ⟨hlines, hline, fun content hw type => ?_⟩
    rw [Format.rows, valuesOf_written hplain hw]
    rfl
  · intro content line hline
    refine ⟨Text.tokens line, array_rows_of_line hline, ?_, ?_⟩
    · intro type
      rw [Format.rows, valuesOf_of_line hline]
      rfl
    · intro item array hitem path
      exact Table.sameValues_of_tokens hitem _ path
  · intro content hmany type
    exact rows_of_lines (by omega) type

/-- Two values with runs of spaces between empty lines; a line of spaces only; two lines, one of them with
    two tokens. -/
theorem spaced_values_agree :
    (Format.values .int8).rows "\n  5   max \n\n".toList = .ok [[.token "5".toList], [.token "max".toList]] ∧
    (∃ tokens : List Text, (Format.array .int8Array).rows "  \n".toList = .ok [[.list tokens]] ∧
      Table.SameValues (.ofString "/cg/cpus") .int8 .int8Array tokens
        (Table.assemble (tokens.map fun t => [.token t]) [.int8] (.file (.ofString "/cg/cpus")))
        (Table.assemble [[.list tokens]] [.int8Array] (.file (.ofString "/cg/cpus")))) ∧
    (Format.values .text).rows "0 1\n2".toList = .ok [[.token "0 1".toList], [.token "2".toList]] := by
  obtain ⟨written, single, several⟩ := column_and_array_agree
  refine ⟨?_, ?_, ?_⟩
  · have hline : Text.Spread ' ' ["5".toList, "max".toList] "  5   max ".toList :=
      .gap (.gap (.piece (by decide) (by decide) (.gap (.gap (.piece (by decide) (by decide) .nil)))))
    have hspread : Text.Spread '\n' ["  5   max ".toList] "\n  5   max \n\n".toList :=
      .gap (.piece (by decide) (by decide) (.gap .nil))
    exact (written ["5".toList, "max".toList] (by decide)).2.2 _ (.onOneLine hline hspread) .int8
  · obtain ⟨tokens, harray, -, hsame⟩ := single "  \n".toList "  ".toList (by decide)
    exact ⟨tokens, harray .int8Array, hsame _ _ .int8 _⟩
  · exact (several "0 1\n2".toList (by decide) .text).2.2

end Format

end HostTables
