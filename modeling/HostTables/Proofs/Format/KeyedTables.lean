/-
  HostTables.Proofs.Format.KeyedTables — keyed cgroup files give back the counters they were written from.

  A counter has one or two keys and a 64-bit number. Its line is its keys and a spelling of the number,
  with runs of spaces between and around them; a file is such lines with empty lines anywhere
  (`Written`). Whether a line is read is a matter of how many tokens it has (`flatRow_eq_ok_iff`,
  `subkeyRow_eq_ok_iff`), so a file is read exactly when every line has as many as its format asks
  for (`flat_rows_iff`, `subkey_rows_iff`). The tokens of a counter's line become its values
  (`coerceRow_counter`). `keyed_tables_round_trip` has the table, and how the two formats compare.
-/
import HostTables.Format
import HostTables.Proofs.Number.Decimal
import HostTables.Proofs.Table.Filled
import HostTables.Proofs.Text.Fields

namespace HostTables.Format

/-- A number in a table, under the keys before it. -/
structure Counter where
  keys : List Text
  number : Signed 64
  deriving DecidableEq, Repr

/-- The formats of counters, with how many keys a counter has. -/
inductive HasKeys : Format → Nat → Prop
  | flat : HasKeys .flatKeyed 1
  | subkey : HasKeys .keySubkeyValue 2

namespace Counter

/-! ## How a file is written -/

/-- A line that gives the counter, with runs of spaces anywhere around its tokens. -/
def OnLine (counter : Counter) (line : Text) : Prop :=
  ∃ numeral, Coerce.Spells counter.number numeral ∧ Text.Spread ' ' (counter.keys ++ [numeral]) line

/-- The lines of the counters in order, with empty lines anywhere and a line feed at the very end or none. -/
def Written (counters : List Counter) (content : Text) : Prop :=
  ∃ lines, List.Forall₂ OnLine counters lines ∧ Text.Spread '\n' lines content

/-- The counter with one space between its tokens. -/
def line (counter : Counter) : Text := Text.joined [' '] (counter.keys ++ [Decimal.ofInt counter.number.val])

/-- The keys are tokens on a line. -/
def Plain (counter : Counter) : Prop := ∀ key ∈ counter.keys, key ≠ [] ∧ ' ' ∉ key ∧ '\n' ∉ key

instance (counter : Counter) : Decidable counter.Plain := inferInstanceAs (Decidable (∀ _ ∈ _, _))

/-- The values of the counter in a table. -/
def values (counter : Counter) : List Value := counter.keys.map Value.text ++ [.int8 counter.number]

variable {counter : Counter}

theorem token_of_plain (h : counter.Plain) :
    ∀ t ∈ counter.keys ++ [Decimal.ofInt counter.number.val], t ≠ [] ∧ ' ' ∉ t ∧ '\n' ∉ t := by
  intro t ht
  rcases List.mem_append.mp ht with hkey | hnumeral
  · exact h t hkey
  · rw [List.mem_singleton.mp hnumeral]
    exact Coerce.token_of_spells (Or.inl rfl)

theorem onLine_line (h : counter.Plain) : counter.OnLine counter.line := by
  refine ⟨_, Or.inl rfl, Text.spread_joined ?_⟩
  intro t ht
  obtain ⟨hne, hspace, -⟩ := token_of_plain h t ht
  exact ⟨hne, hspace⟩

theorem line_is_line (h : counter.Plain) : counter.line ≠ [] ∧ '\n' ∉ counter.line := by
  constructor
  · intro hnil
    obtain ⟨numeral, -, hspread⟩ := onLine_line h
    have hfields := Text.fields_of_spread hspread
    rw [hnil, Text.fields_nil] at hfields
    simp at hfields
  · exact Text.not_mem_joined (by decide) fun t ht => (token_of_plain h t ht).2.2

/-- All counters whose keys are tokens can be written. -/
theorem exists_written {counters : List Counter} (h : ∀ counter ∈ counters, counter.Plain) :
    ∃ content, Written counters content := by
  refine ⟨Text.joined ['\n'] (counters.map line), counters.map line, ?_, Text.spread_joined ?_⟩
  · rw [List.forall₂_map_right_iff, List.forall₂_same]
    exact fun counter hc => onLine_line (h counter hc)
  · exact List.forall_mem_map.mpr fun counter hc => line_is_line (h counter hc)

theorem lines_of_written {counters : List Counter} {content : Text} (h : Written counters content) :
    List.Forall₂ OnLine counters (Text.lines content) := by
  obtain ⟨lines, honline, hspread⟩ := h
  rwa [Text.lines, Text.fields_of_spread hspread]

end Counter

/-! ## Lines -/

/-- The row of the tokens of a line. -/
def lineRow (line : Text) : Row := tokenRow (Text.tokens line)

theorem flatRow_eq_ok_iff {n : Nat} {line : Text} {row : Row} :
    flatRow n line = .ok row ↔ (Text.tokens line).length = 2 ∧ row = lineRow line := by
  unfold lineRow
  unfold flatRow
  split
  · rename_i key value h
    rw [h]
    constructor
    · intro hrow
      cases hrow
      exact ⟨rfl, rfl⟩
    · rintro ⟨-, rfl⟩
      rfl
  · rename_i h
    constructor
    · intro impossible
      cases impossible
    · rintro ⟨hlength, -⟩
      obtain ⟨key, value, htokens⟩ := List.length_eq_two.mp hlength
      exact absurd htokens (h key value)

/-- The tokens of a line with a key; a line without one is about all keys. -/
def withKey (tokens : List Text) : List Text := if tokens.length = 2 then aggregateKey :: tokens else tokens

theorem subkeyRow_eq_ok_iff {n : Nat} {line : Text} {row : Row} :
    subkeyRow n line = .ok row ↔
      ((Text.tokens line).length = 2 ∨ (Text.tokens line).length = 3) ∧ row = tokenRow (withKey (Text.tokens line)) := by
  unfold subkeyRow
  split
  · rename_i subkey value h
    rw [h]
    constructor
    · intro hrow
      cases hrow
      exact ⟨Or.inl rfl, rfl⟩
    · rintro ⟨-, rfl⟩
      rfl
  · rename_i key subkey value h
    rw [h]
    constructor
    · intro hrow
      cases hrow
      exact ⟨Or.inr rfl, rfl⟩
    · rintro ⟨-, rfl⟩
      rfl
  · rename_i htwo hthree
    constructor
    · intro impossible
      cases impossible
    · rintro ⟨hlength | hlength, -⟩
      · obtain ⟨subkey, value, htokens⟩ := List.length_eq_two.mp hlength
        exact absurd htokens (htwo subkey value)
      · obtain ⟨key, subkey, value, htokens⟩ := List.length_eq_three.mp hlength
        exact absurd htokens (hthree key subkey value)

variable {content : Text} {rows : List Row}

theorem flat_rows_iff : Format.flatKeyed.rows content = .ok rows ↔
    (∀ line ∈ Text.lines content, (Text.tokens line).length = 2) ∧
      rows = (Text.lines content).map lineRow := by
  refine eachNumbered_eq_ok_iff fun _ _ _ => ?_
  exact flatRow_eq_ok_iff

theorem subkey_rows_iff : Format.keySubkeyValue.rows content = .ok rows ↔
    (∀ line ∈ Text.lines content, (Text.tokens line).length = 2 ∨ (Text.tokens line).length = 3) ∧
      rows = (Text.lines content).map fun line => tokenRow (withKey (Text.tokens line)) := by
  refine eachNumbered_eq_ok_iff fun _ _ _ => ?_
  exact subkeyRow_eq_ok_iff

/-- A flat file is also one of subkeys, all of them about all keys. -/
theorem subkey_rows_of_flat (h : Format.flatKeyed.rows content = .ok rows) :
    Format.keySubkeyValue.rows content = .ok (rows.map (Cell.token aggregateKey :: ·)) := by
  obtain ⟨htwo, rfl⟩ := flat_rows_iff.mp h
  refine subkey_rows_iff.mpr ⟨fun line hline => Or.inl (htwo line hline), ?_⟩
  rw [List.map_map]
  refine List.map_congr_left fun line hline => ?_
  rw [withKey, if_pos (htwo line hline)]
  rfl

/-! ## Tables -/

section Tables

variable {format : Format} {arity : Nat}

theorem rows_of_hasKeys (hf : HasKeys format arity)
    (h : ∀ line ∈ Text.lines content, (Text.tokens line).length = arity + 1) :
    format.rows content = .ok ((Text.lines content).map lineRow) := by
  cases hf with
  | flat => exact flat_rows_iff.mpr ⟨h, rfl⟩
  | subkey =>
    refine subkey_rows_iff.mpr ⟨fun line hline => Or.inr (h line hline), ?_⟩
    refine List.map_congr_left fun line hline => ?_
    have hthree : (Text.tokens line).length ≠ 2 := by
      rw [h line hline]
      decide
    rw [withKey, if_neg hthree, lineRow]

theorem signature_of_hasKeys (hf : HasKeys format arity) :
    format.signature = List.replicate arity .text ++ [.int8] := by
  cases hf <;> rfl

theorem coerceCells_counter {word : Signed 64} {numeral : Text} (h : Coerce.Spells word numeral) (n : Nat)
    (keys : List Text) :
    ∀ column, Table.coerceCells n column (tokenRow (keys ++ [numeral])) (List.replicate keys.length .text ++ [.int8]) =
      .ok (keys.map Value.text ++ [.int8 word]) := by
  induction keys with
  | nil =>
    intro column
    have hcell : (Cell.token numeral).coerce .int8 = .ok (.int8 word) := by
      rw [Cell.coerce, Coerce.toInt64_of_spells h]
      rfl
    show Table.coerceCells n column [.token numeral] [.int8] = _
    rw [Table.coerceCells, hcell]
    rfl
  | cons key rest ih =>
    intro column
    show Table.coerceCells n column (.token key :: tokenRow (rest ++ [numeral]))
      (.text :: (List.replicate rest.length .text ++ [.int8])) = _
    rw [Table.coerceCells, ih]
    rfl

/-- The tokens of a counter's line fit its columns and are its values there. -/
theorem coerceRow_counter (hf : HasKeys format arity) {counter : Counter} {line : Text}
    (hkeys : counter.keys.length = arity) (hline : counter.OnLine line) :
    (Text.tokens line).length = arity + 1 ∧
      ∀ n, Table.coerceRow format.signature n (lineRow line) = .ok counter.values := by
  obtain ⟨numeral, hspells, hspread⟩ := hline
  have htokens : Text.tokens line = counter.keys ++ [numeral] := Text.fields_of_spread hspread
  rw [lineRow, htokens, signature_of_hasKeys hf, ← hkeys]
  refine ⟨by simp, ?_⟩
  intro n
  have hwidth : (tokenRow (counter.keys ++ [numeral])).length =
      (List.replicate counter.keys.length ColumnType.text ++ [ColumnType.int8]).length := by
    simp [tokenRow]
  rw [Table.coerceRow, if_pos hwidth, coerceCells_counter hspells]
  rfl

theorem assemble_counters (hf : HasKeys format arity) {counters : List Counter} (hne : counters ≠ [])
    (hkeys : ∀ counter ∈ counters, counter.keys.length = arity) (h : Counter.Written counters content) (path : Path) :
    ∃ rows, format.rows content = .ok rows ∧
      Table.assemble rows format.signature (.file path) = .ok ⟨format.signature, counters.map Counter.values⟩ := by
  have hlines : List.Forall₂ (fun counter line => counter.keys.length = arity ∧ counter.OnLine line) counters
      (Text.lines content) :=
    (List.forall₂_and_left _ _).mpr ⟨hkeys, Counter.lines_of_written h⟩
  have hread : List.Forall₂ (fun line counter => (Text.tokens line).length = arity + 1 ∧
      ∀ n, Table.coerceRow format.signature n (lineRow line) = .ok counter.values) (Text.lines content) counters :=
    List.Forall₂.flip (hlines.imp fun counter line hboth => coerceRow_counter hf hboth.1 hboth.2)
  obtain ⟨hlength, hvalues⟩ := (List.forall₂_and_left _ _).mp hread
  have hsome : Text.lines content ≠ [] := by
    intro hnil
    rw [hnil] at hlines
    exact hne (List.forall₂_nil_right_iff.mp hlines)
  refine ⟨_, rows_of_hasKeys hf hlength, Table.assemble_eq_ok (by simpa using hsome) ?_ path⟩
  rwa [List.forall₂_map_left_iff, List.forall₂_map_right_iff]

end Tables

/-- Counters can be written, and however they are, exactly they are the rows of the table in order. A
    file of keys is also one of subkeys about all keys. A file is one of subkeys exactly when every line
    that is not empty has two or three tokens, and each of these lines is a row. -/
theorem keyed_tables_round_trip :
    (∀ counters : List Counter, (∀ counter ∈ counters, counter.Plain) → ∃ content, Counter.Written counters content) ∧
    (∀ format arity, HasKeys format arity → ∀ counters : List Counter, counters ≠ [] →
      (∀ counter ∈ counters, counter.keys.length = arity) → ∀ content, Counter.Written counters content → ∀ path,
        ∃ rows, format.rows content = .ok rows ∧
          Table.assemble rows format.signature (.file path) = .ok ⟨format.signature, counters.map Counter.values⟩) ∧
    (∀ content rows, Format.flatKeyed.rows content = .ok rows →
      Format.keySubkeyValue.rows content = .ok (rows.map (Cell.token "all".toList :: ·))) ∧
    (∀ content, ((∃ rows, Format.keySubkeyValue.rows content = .ok rows) ↔
        ∀ line ∈ Text.lines content, (Text.tokens line).length = 2 ∨ (Text.tokens line).length = 3) ∧
      ∀ rows, Format.keySubkeyValue.rows content = .ok rows →
        rows = (Text.lines content).map fun line => tokenRow (withKey (Text.tokens line))) := by
  refine ⟨fun _ => Counter.exists_written, ?_, fun _ _ => subkey_rows_of_flat, ?_⟩
  · intro format arity hf counters hne hkeys content hw path
    exact assemble_counters hf hne hkeys hw path
  · intro content
    refine ⟨⟨?_, ?_⟩, fun rows h => (subkey_rows_iff.mp h).2⟩
    · rintro ⟨rows, h⟩
      exact (subkey_rows_iff.mp h).1
    · exact fun h => ⟨_, subkey_rows_iff.mpr ⟨h, rfl⟩⟩

/-- Both ends of a limit, and a key that is spelled as a number is. -/
def limits : List Counter :=
  [⟨["high".toList], Signed.maxValue 64⟩, ⟨["low".toList], Signed.minValue 64⟩,
    ⟨["max".toList], ⟨-5, by decide, by decide⟩⟩]

def limitsContent : Text := "  high   max \n\n low -9223372036854775808\nmax -5".toList

/-- The first line is about all keys. -/
def mixedContent : Text := "read 2\n8:0 read 1\n".toList

theorem limits_written : Counter.Written limits limitsContent := by
  refine ⟨["  high   max ".toList, " low -9223372036854775808".toList, "max -5".toList], ?_, ?_⟩
  · have hhigh : Counter.OnLine ⟨["high".toList], Signed.maxValue 64⟩ "  high   max ".toList :=
      ⟨"max".toList, Or.inr ⟨rfl, rfl⟩,
        .gap (.gap (.piece (by decide) (by decide) (.gap (.gap (.piece (by decide) (by decide) .nil)))))⟩
    have hlow : Counter.OnLine ⟨["low".toList], Signed.minValue 64⟩ " low -9223372036854775808".toList :=
      ⟨"-9223372036854775808".toList, Or.inl (by decide +kernel),
        .gap (.piece (by decide) (by decide) (.last (by decide) (by decide)))⟩
    have hmax : Counter.OnLine ⟨["max".toList], ⟨-5, by decide, by decide⟩⟩ "max -5".toList :=
      ⟨"-5".toList, Or.inl (by decide), .piece (by decide) (by decide) (.last (by decide) (by decide))⟩
    exact .cons hhigh (.cons hlow (.cons hmax .nil))
  · exact .piece (by decide) (by decide) (.gap (.piece (by decide) (by decide) (.last (by decide) (by decide))))

theorem limits_round_trip :
    (∃ rows, Format.flatKeyed.rows limitsContent = .ok rows ∧
      Table.assemble rows [.text, .int8] (.file (.ofString "/cg/memory.limits")) =
        .ok ⟨[.text, .int8], limits.map Counter.values⟩) ∧
    Format.keySubkeyValue.rows limitsContent =
      .ok [tokenRow (["all", "high", "max"].map String.toList),
        tokenRow (["all", "low", "-9223372036854775808"].map String.toList),
        tokenRow (["all", "max", "-5"].map String.toList)] ∧
    ∃ rows, Format.keySubkeyValue.rows mixedContent = .ok rows ∧ rows.length = 2 := by
  obtain ⟨-, tables, aggregates, accepted⟩ := keyed_tables_round_trip
  refine ⟨?_, ?_, ?_⟩
  · exact tables _ _ .flat limits (by decide) (by decide) _ limits_written _
  · have hflat : Format.flatKeyed.rows limitsContent =
        .ok [tokenRow (["high", "max"].map String.toList),
          tokenRow (["low", "-9223372036854775808"].map String.toList),
          tokenRow (["max", "-5"].map String.toList)] := by decide +kernel
    exact aggregates _ _ hflat
  · obtain ⟨rows, hrows⟩ := (accepted mixedContent).1.mpr (by decide)
    refine ⟨rows, hrows, ?_⟩
    rw [(accepted mixedContent).2 rows hrows]
    decide

end HostTables.Format
