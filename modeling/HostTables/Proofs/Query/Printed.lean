/-
  HostTables.Proofs.Query.Printed — printed answers lose nothing.

  Values are printed without their types, so what tells them apart is the list of columns, the
  escapes in strings and integers written in full. `Value.meaning?`, `Table.Means` and
  `Answer.Means` say which JSON value stands for an answer.
  - The way there: without doubles the text of every layout is JSON that denotes the meaning of
    the answer (`Answer.denotes_printed`), and nothing else, as a text denotes at most one value.
  - The way back: values that fit one column do not share a meaning (`Value.eq_of_means`), nor do
    conforming tables, whose columns are part of it (`Table.eq_of_means`).

  `printed_answers_lose_nothing` puts both together for what runs print. Doubles are left out: one
  that is not finite is printed as `null`.
-/
import HostTables.Program
import HostTables.Proofs.Json.Printed
import HostTables.Proofs.Query.Schema

namespace HostTables

open JsonText (Denotes)

/-! ## What stands for an answer -/

/-- The JSON value that stands for a value of a column; a double has none here. -/
def Value.meaning? : Value → Option JsonValue
  | .null => some (.scalar .null)
  | .text value => some (.scalar (.string value))
  | .int4 value => some (.scalar (.number value.val))
  | .int8 value => some (.scalar (.number value.val))
  | .float8 _ => none
  | .numeric value => some (.scalar (.number value.val))
  | .textArray items => some (.array (items.map fun item => .scalar (.string item)))
  | .int8Array items => some (.array (items.map fun item => .scalar (.number item.val)))

def Value.Means (value : Value) (meaning : JsonValue) : Prop := value.meaning? = some meaning

/-- The object of these columns and these rows. -/
def JsonValue.table (columns : Signature) (rows : List (List JsonValue)) : JsonValue :=
  .object
    [("columns".toList, .array (columns.map fun type => .scalar (.string type.printedName.toList))),
     ("rows".toList, .array (rows.map .array))]

/-- The names of the columns, and row by row what the values mean. -/
def Table.Means (table : Table) (meaning : JsonValue) : Prop :=
  ∃ rows, List.Forall₂ (List.Forall₂ Value.Means) table.rows rows ∧ meaning = .table table.columns rows

def Answer.Means : Answer → JsonValue → Prop
  | .scalar value, meaning => value.Means meaning
  | .table typed, meaning => typed.Means meaning

namespace Answer

def values : Answer → List Value
  | .scalar value => [value]
  | .table typed => typed.rows.flatten

def HasNoDouble (answer : Answer) : Prop := ∀ value ∈ answer.values, value.type? ≠ some .float8

instance (answer : Answer) : Decidable answer.HasNoDouble :=
  inferInstanceAs (Decidable (∀ value ∈ answer.values, value.type? ≠ some .float8))

/-- What a run prints for an answer. -/
def printed (layout : Json.Layout) (answer : Answer) : Text := answer.json.print layout ++ ['\n']

/-- In layouts of their own the answers are printed as one text, or as texts that denote the same. -/
def PrintedAlike (a b : Answer) : Prop :=
  ∃ layout layout', a.printed layout = b.printed layout' ∨
    ∃ meaning, Denotes (a.printed layout) meaning ∧ Denotes (b.printed layout') meaning

end Answer

/-! ## From answers to texts that mean them -/

theorem Value.exists_means {value : Value} (h : value.type? ≠ some .float8) : ∃ meaning, value.Means meaning := by
  cases value with
  | float8 x => exact absurd rfl h
  | _ => exact ⟨_, rfl⟩

theorem Value.Means.prints {value : Value} {meaning : JsonValue} (h : value.Means meaning) :
    value.json.Prints meaning := by
  cases value with
  | null => cases h; exact Json.prints_null
  | text t => cases h; exact Json.prints_string t
  | int4 n => cases h; exact Json.prints_integer n.val
  | int8 n => cases h; exact Json.prints_integer n.val
  | float8 x => cases h
  | numeric n => cases h; exact Json.prints_integer n.val
  | textArray items => cases h; exact Json.prints_mapped Json.prints_string items
  | int8Array items => cases h; exact Json.prints_mapped (fun n => Json.prints_integer n.val) items

/-- Where every element of a list is related to something, the list is related to a list. -/
theorem exists_forall₂ {α β : Type} {R : α → β → Prop} {items : List α} (h : ∀ a ∈ items, ∃ b, R a b) :
    ∃ out, List.Forall₂ R items out := by
  induction items with
  | nil => exact ⟨[], .nil⟩
  | cons a items ih =>
    obtain ⟨b, hb⟩ := h a List.mem_cons_self
    obtain ⟨out, hout⟩ := ih fun a' ha' => h a' (List.mem_cons_of_mem a ha')
    exact ⟨b :: out, .cons hb hout⟩

namespace Table

theorem exists_means {table : Table} (h : (Answer.table table).HasNoDouble) : ∃ meaning, table.Means meaning := by
  have hrows : ∃ rows, List.Forall₂ (List.Forall₂ Value.Means) table.rows rows := by
    refine exists_forall₂ fun row hrow => exists_forall₂ fun value hvalue => Value.exists_means ?_
    exact h value (List.mem_flatten.mpr ⟨row, hrow, hvalue⟩)
  obtain ⟨rows, hrows⟩ := hrows
  exact ⟨_, rows, hrows, rfl⟩

theorem Means.prints {table : Table} {meaning : JsonValue} (h : table.Means meaning) : table.json.Prints meaning := by
  obtain ⟨rows, hrows, rfl⟩ := h
  have hcolumns := Json.prints_mapped (fun type => Json.prints_string type.printedName.toList) table.columns
  have hcells : Json.Prints (.array (table.rows.map fun row => .array (row.map Value.json)))
      (.array (rows.map .array)) := by
    refine Json.prints_array ?_
    rw [List.forall₂_map_left_iff, List.forall₂_map_right_iff]
    refine hrows.imp fun row means hrow => Json.prints_array ?_
    rw [List.forall₂_map_left_iff]
    exact hrow.imp fun _ _ => Value.Means.prints
  exact Json.prints_object (.cons ⟨rfl, hcolumns⟩ (.cons ⟨rfl, hcells⟩ .nil))

end Table

namespace Answer

theorem exists_means {answer : Answer} (h : answer.HasNoDouble) : ∃ meaning, answer.Means meaning := by
  cases answer with
  | scalar value => exact Value.exists_means (h value List.mem_cons_self)
  | table typed => exact Table.exists_means h

theorem denotes_printed {answer : Answer} {meaning : JsonValue} (h : answer.Means meaning) (layout : Json.Layout) :
    Denotes (answer.printed layout) meaning := by
  cases answer with
  | scalar value => exact (Value.Means.prints h).denotes layout
  | table typed => exact (Table.Means.prints h).denotes layout

/-- However they are printed, answers that are printed alike mean the same. -/
theorem PrintedAlike.means {a b : Answer} {v w : JsonValue} (h : a.PrintedAlike b) (hv : a.Means v) (hw : b.Means w) :
    v = w := by
  obtain ⟨layout, layout', htext | ⟨meaning, ha, hb⟩⟩ := h
  · have ha := denotes_printed hv layout
    rw [htext] at ha
    exact JsonText.denotes_unique ha (denotes_printed hw layout')
  · have hv := JsonText.denotes_unique (denotes_printed hv layout) ha
    have hw := JsonText.denotes_unique (denotes_printed hw layout') hb
    exact hv.trans hw.symm

end Answer

/-! ## From meanings back to answers -/

namespace JsonValue

theorem string_injective : Function.Injective fun t : Text => scalar (.string t) := by
  intro t u h
  cases h
  rfl

theorem number_injective (width : Nat) :
    Function.Injective fun n : Signed width => scalar (.number n.val) := by
  intro n m h
  simp only [scalar.injEq, JsonText.Scalar.number.injEq, Rat.intCast_inj] at h
  exact Signed.ext h

end JsonValue

namespace Value

theorem eq_null_of_means {value : Value} (h : value.Means (.scalar .null)) : value = .null := by
  cases value with
  | null => rfl
  | _ => cases h

/-- The value behind a meaning is known once its type is. -/
theorem eq_of_type {type : ColumnType} {v w : Value} {meaning : JsonValue} (hv : v.Means meaning)
    (hw : w.Means meaning) (tv : v.type? = some type) (tw : w.type? = some type) : v = w := by
  have heq : v.meaning? = w.meaning? := hv.trans hw.symm
  cases v with
  | null => cases tv
  | text t =>
    cases tv
    cases w with
    | text u => rw [JsonValue.string_injective (Option.some.inj heq)]
    | _ => cases tw
  | int4 n =>
    cases tv
    cases w with
    | int4 m => rw [JsonValue.number_injective 32 (Option.some.inj heq)]
    | _ => cases tw
  | int8 n =>
    cases tv
    cases w with
    | int8 m => rw [JsonValue.number_injective 64 (Option.some.inj heq)]
    | _ => cases tw
  | float8 x => cases hv
  | numeric n =>
    cases tv
    cases w with
    | numeric m => rw [JsonValue.number_injective 128 (Option.some.inj heq)]
    | _ => cases tw
  | textArray items =>
    cases tv
    cases w with
    | textArray items' =>
      have hitems := JsonValue.array.inj (Option.some.inj heq)
      rw [List.map_injective_iff.mpr JsonValue.string_injective hitems]
    | _ => cases tw
  | int8Array items =>
    cases tv
    cases w with
    | int8Array items' =>
      have hitems := JsonValue.array.inj (Option.some.inj heq)
      rw [List.map_injective_iff.mpr (JsonValue.number_injective 64) hitems]
    | _ => cases tw

/-- Values of one column do not share a meaning. -/
theorem eq_of_means {type : ColumnType} {v w : Value} {meaning : JsonValue} (hv : v.Means meaning)
    (hw : w.Means meaning) (fv : v.Fits type) (fw : w.Fits type) : v = w := by
  rcases fv with rfl | tv
  · cases hv
    exact (eq_null_of_means hw).symm
  · rcases fw with rfl | tw
    · cases hw
      exact eq_null_of_means hv
    · exact eq_of_type hv hw tv tw

/-- Nor do rows that fit the same columns. -/
theorem row_eq_of_means {columns : Signature} {v w : List Value} {meanings : List JsonValue}
    (hv : List.Forall₂ Means v meanings) (hw : List.Forall₂ Means w meanings) (fv : List.Forall₂ Fits v columns)
    (fw : List.Forall₂ Fits w columns) : v = w := by
  induction hv generalizing w columns with
  | nil =>
    cases hw
    rfl
  | cons hv _ ih =>
    cases hw with
    | cons hw hws =>
      cases fv with
      | cons fv fvs =>
        cases fw with
        | cons fw fws => rw [eq_of_means hv hw fv fw, ih hws fvs fws]

end Value

theorem printedName_injective : Function.Injective ColumnType.printedName := by
  intro a b
  cases a <;> cases b <;> decide

theorem JsonValue.table_inj {columns columns' : Signature} {rows rows' : List (List JsonValue)}
    (h : JsonValue.table columns rows = .table columns' rows') : columns = columns' ∧ rows = rows' := by
  have hname : Function.Injective fun type : ColumnType => JsonValue.scalar (.string type.printedName.toList) :=
    fun _ _ heq => printedName_injective (String.toList_inj.mp (string_injective heq))
  have harray : Function.Injective JsonValue.array := fun _ _ heq => JsonValue.array.inj heq
  simp only [table, object.injEq, List.cons.injEq, Prod.mk.injEq, array.injEq, true_and, and_true] at h
  exact ⟨List.map_injective_iff.mpr hname h.1, List.map_injective_iff.mpr harray h.2⟩

namespace Table

theorem rows_eq_of_means {columns : Signature} {rows rows' : List (List Value)} {meanings : List (List JsonValue)}
    (h : List.Forall₂ (List.Forall₂ Value.Means) rows meanings)
    (h' : List.Forall₂ (List.Forall₂ Value.Means) rows' meanings)
    (hfits : ∀ row ∈ rows, List.Forall₂ Value.Fits row columns)
    (hfits' : ∀ row ∈ rows', List.Forall₂ Value.Fits row columns) : rows = rows' := by
  induction h generalizing rows' with
  | nil =>
    cases h'
    rfl
  | cons hrow _ ih =>
    cases h' with
    | cons hrow' hrows' =>
      rw [List.forall_mem_cons] at hfits hfits'
      rw [Value.row_eq_of_means hrow hrow' hfits.1 hfits'.1, ih hrows' hfits.2 hfits'.2]

/-- Tables with the same meaning have the same columns, and so the same rows. -/
theorem eq_of_means {a b : Table} {meaning : JsonValue} {s s' : Signature} (ha : a.Means meaning) (hb : b.Means meaning)
    (ca : a.Conforms s) (cb : b.Conforms s') : a = b := by
  obtain ⟨rows, hrows, rfl⟩ := ha
  obtain ⟨rows', hrows', heq⟩ := hb
  obtain ⟨hcolumns, rfl⟩ := JsonValue.table_inj heq
  have hfits' : ∀ row ∈ b.rows, List.Forall₂ Value.Fits row s := by
    rw [← ca.1, hcolumns, cb.1]
    exact cb.2
  rw [Table.mk.injEq]
  exact ⟨hcolumns, rows_eq_of_means hrows hrows' ca.2 hfits'⟩

end Table

/-! ## What runs print -/

namespace Program

/-- The context of a run with these options. -/
def contextOf (machine : Machine) (options : Options) : Context :=
  (Context.ofConfig machine.files (configure machine options).1).1

theorem answer_eq_ok_iff {machine : Machine} {invocation : Invocation} {text : Text} :
    (answer machine invocation).1 = .ok text ↔
      ∃ answer, invocation.query.execute machine (contextOf machine invocation.options) invocation.options.expected =
          .ok answer ∧ text = answer.printed (layoutOf invocation.options) := by
  have hbind : (answer machine invocation).1 =
      (invocation.query.execute machine (contextOf machine invocation.options) invocation.options.expected >>=
        fun answer => .ok (answer.printed (layoutOf invocation.options))) := rfl
  rw [hbind, bind_eq_ok]
  simp only [Except.ok.injEq, eq_comm (b := text)]

theorem run_eq_ok_iff {machine : Machine} {args : List Text} {text : Text} :
    (run machine args).1 = .ok text ↔
      ∃ invocation, Invocation.parse args = .ok invocation ∧ (answer machine invocation).1 = .ok text := by
  unfold run
  cases Invocation.parse args with
  | error refusal => simp
  | ok invocation => simp [mapError_eq_ok]

end Program

/-- A run prints an answer that conforms to its query. Without doubles the text is JSON in every layout, and all
    layouts denote the same, which is the meaning of the answer. Conforming tables that are printed alike are
    one table, and scalars of one column type that are printed alike are one value. -/
theorem printed_answers_lose_nothing :
    (∀ machine args text, (Program.run machine args).1 = .ok text ↔
      ∃ invocation answer, Invocation.parse args = .ok invocation ∧
        invocation.query.execute machine (Program.contextOf machine invocation.options) invocation.options.expected =
          .ok answer ∧ answer.Conforms invocation.query.signature ∧
        text = answer.printed (Program.layoutOf invocation.options)) ∧
    (∀ answer : Answer, answer.HasNoDouble → ∃ meaning, answer.Means meaning ∧
      ∀ layout value, Denotes (answer.printed layout) value ↔ value = meaning) ∧
    (∀ (a b : Table) (s s' : Signature), a.Conforms s → b.Conforms s' → (Answer.table a).HasNoDouble →
      (Answer.table b).HasNoDouble → (Answer.table a).PrintedAlike (.table b) → a = b) ∧
    ∀ (v w : Value) (type : ColumnType), v.Fits type → w.Fits type → (Answer.scalar v).HasNoDouble →
      (Answer.scalar w).HasNoDouble → (Answer.scalar v).PrintedAlike (.scalar w) → v = w := by
  refine ⟨fun machine args text => ?_, fun answer hdouble => ?_, ?_, ?_⟩
  · simp only [Program.run_eq_ok_iff, Program.answer_eq_ok_iff]
    constructor
    · rintro ⟨invocation, hparse, answer, hexecute, rfl⟩
      exact ⟨invocation, answer, hparse, hexecute, Query.execute_conforms hexecute, rfl⟩
    · rintro ⟨invocation, answer, hparse, hexecute, -, rfl⟩
      exact ⟨invocation, hparse, answer, hexecute, rfl⟩
  · obtain ⟨meaning, hmeans⟩ := Answer.exists_means hdouble
    refine ⟨meaning, hmeans, fun layout value => ⟨fun h => ?_, ?_⟩⟩
    · exact JsonText.denotes_unique h (Answer.denotes_printed hmeans layout)
    · rintro rfl
      exact Answer.denotes_printed hmeans layout
  · intro a b s s' ca cb ha hb h
    obtain ⟨meaning, hmeans⟩ := Answer.exists_means ha
    obtain ⟨meaning', hmeans'⟩ := Answer.exists_means hb
    cases h.means hmeans hmeans'
    exact Table.eq_of_means hmeans hmeans' ca cb
  · intro v w type fv fw hv hw h
    obtain ⟨meaning, hmeans⟩ := Answer.exists_means hv
    obtain ⟨meaning', hmeans'⟩ := Answer.exists_means hw
    cases h.means hmeans hmeans'
    exact Value.eq_of_means hmeans hmeans' fv fw

/-- Characters that are escaped, both ends of the integers and two arrays that look alike. -/
def awkwardTable : Table where
  columns := [.text, .numeric, .textArray]
  rows :=
    [[.text ['"', '\\', '\n', '\x01', 'é'], .numeric (Signed.minValue 128), .textArray []],
     [.text "null".toList, .numeric (Signed.maxValue 128), .textArray [[]]]]

/-- The same with null in place of the text, and the arrays exchanged. -/
def swappedTable : Table where
  columns := [.text, .numeric, .textArray]
  rows :=
    [[.text ['"', '\\', '\n', '\x01', 'é'], .numeric (Signed.minValue 128), .textArray [[]]],
     [.null, .numeric (Signed.maxValue 128), .textArray []]]

/-- The table has a meaning in every layout; the other table is never printed like it, nor is null like the text. -/
theorem awkward_table_printed :
    (awkwardTable.Conforms [.text, .numeric, .textArray] ∧ (Answer.table awkwardTable).HasNoDouble ∧
      ∃ meaning, awkwardTable.Means meaning ∧
        ∀ layout value, Denotes ((Answer.table awkwardTable).printed layout) value ↔ value = meaning) ∧
    ¬ (Answer.table awkwardTable).PrintedAlike (.table swappedTable) ∧
    ¬ (Answer.scalar .null).PrintedAlike (.scalar (.text "null".toList)) := by
  obtain ⟨-, there, tables, scalars⟩ := printed_answers_lose_nothing
  have conforms : awkwardTable.Conforms [.text, .numeric, .textArray] := by decide
  have noDouble : (Answer.table awkwardTable).HasNoDouble := by decide
  refine ⟨⟨conforms, noDouble, there _ noDouble⟩, fun alike => ?_, fun alike => ?_⟩
  · have same : awkwardTable = swappedTable :=
      tables _ _ _ [.text, .numeric, .textArray] conforms (by decide) noDouble (by decide) alike
    exact absurd same (by decide)
  · have same : Value.null = .text "null".toList :=
      scalars _ _ .text (Value.null_fits .text) (Value.fits_of_type rfl) (by decide) (by decide) alike
    cases same

end HostTables
