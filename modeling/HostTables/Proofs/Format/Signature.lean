/-
  HostTables.Proofs.Format.Signature — the rows of a format fit its signature.

  Each format makes its rows in one of three ways (`Shaped`): a row of an array format is one
  list, a row of diskstats is tokens and then nulls up to the last column, and a row of any
  other format is as many tokens as the signature has columns. There is one lemma for each
  grammar, and `rows_shaped` puts them together. It says of the errors too that none of them is
  about the width of a row, so that only assembling a table can report one.

  Hence every row has the width of the signature (`Shaped.length`). Where a format is put on a
  type it is meant for (`Matched`), every cell is what its column asks for as well
  (`Shaped.forall₂_takes`).
-/
import HostTables.Format
import HostTables.Proofs.Outcome

namespace HostTables

/-! ## Cells and their columns -/

/-- The types whose values are arrays. -/
def ColumnType.isArray : ColumnType → Bool
  | .textArray | .int8Array => true
  | .text | .int4 | .int8 | .float8 | .numeric => false

/-- An array column asks for a list of tokens, any other column for one token. -/
inductive Cell.Suits : Cell → ColumnType → Prop
  | token {t : Text} {type : ColumnType} : type.isArray = false → Suits (.token t) type
  | list {items : List Text} {type : ColumnType} : type.isArray = true → Suits (.list items) type

/-- Reports about the number of a row's cells. -/
def ParseError.isWidth : ParseError → Bool
  | .columnCount .. => true
  | _ => false

namespace Format

/-! ## Rows of a format -/

/-- A row of `width` tokens. -/
def OfTokens (width : Nat) (row : Row) : Prop := ∃ tokens, row = tokenRow tokens ∧ tokens.length = width

/-- What a row of the format is made of. -/
def Shaped : Format → Row → Prop
  | .array _, row => ∃ items, row = [.list items]
  | .kernel .diskstats, row => ∃ tokens missing,
      row = tokenRow tokens ++ List.replicate missing .null ∧ tokens.length + missing = Diskstats.columns
  | format, row => OfTokens format.signature.length row

/-- A value with the property, or an error that is not about a width. -/
abbrev Yields {α : Type} (P : α → Prop) (x : Except ParseError α) : Prop := Ends P (fun e => e.isWidth = false) x

/-- A step of which only the errors matter. -/
abbrev Widthless {α : Type} (x : Except ParseError α) : Prop := Yields (fun _ => True) x

theorem rowPerLine_yields {P : Row → Prop} {row : Nat → Text → Except ParseError Row}
    (h : ∀ n t, Yields P (row n t)) (content : Text) : Yields (fun rows => ∀ r ∈ rows, P r) (rowPerLine row content) :=
  eachNumbered_ends h _ 1

theorem singleLine_widthless (content : Text) : Widthless (singleLine content) := by
  unfold singleLine
  split
  · trivial
  · rfl

theorem singleLine_eq_ok_iff {content line : Text} : singleLine content = .ok line ↔ Text.lines content = [line] := by
  unfold singleLine
  split
  · rename_i only h
    simp [h]
  · rename_i h
    constructor
    · intro impossible
      cases impossible
    · intro hline
      exact absurd hline (h line)

theorem singleLine_of_lines {content : Text} (h : (Text.lines content).length ≠ 1) :
    singleLine content = .error (.lineCount (.exactly 1) (Text.lines content).length) := by
  unfold singleLine
  split
  · rename_i line hline
    rw [hline] at h
    exact absurd rfl h
  · rfl

theorem singleLine_eq_error_iff {content : Text} {e : ParseError} : singleLine content = .error e ↔
    (Text.lines content).length ≠ 1 ∧ e = .lineCount (.exactly 1) (Text.lines content).length := by
  by_cases h : (Text.lines content).length = 1
  · obtain ⟨line, hline⟩ := List.length_eq_one_iff.mp h
    simp [h, singleLine_eq_ok_iff.mpr hline]
  · simp [h, singleLine_of_lines h, eq_comm]

/-! ## Keyed formats -/

theorem flatRow_yields (n : Nat) (t : Text) : Yields (OfTokens 2) (flatRow n t) := by
  unfold flatRow
  split
  · exact ⟨_, rfl, rfl⟩
  · rfl

theorem subkeyRow_yields (n : Nat) (t : Text) : Yields (OfTokens 3) (subkeyRow n t) := by
  unfold subkeyRow
  split
  · exact ⟨_, rfl, rfl⟩
  · exact ⟨_, rfl, rfl⟩
  · rfl

theorem quotedRow_yields (n : Nat) (t : Text) : Yields (OfTokens 2) (quotedRow n t) := by
  have hpair : Widthless (quotedPair n t) := by
    unfold quotedPair
    split
    · rfl
    · split
      · rfl
      · split
        · trivial
        · rfl
  exact .bind hpair fun pair _ => ⟨_, rfl, rfl⟩

namespace NestedLine

theorem pair_widthless (n : Nat) (t : Text) : Widthless (pair n t) := by
  unfold pair
  split
  · split
    · rfl
    · trivial
  · rfl

theorem pairsOf_widthless (n : Nat) (tokens : List Text) : Widthless (pairsOf n tokens) := by
  induction tokens with
  | nil => trivial
  | cons t rest ih => exact .bind (pair_widthless n t) fun _ _ => .bind ih fun _ _ => trivial

theorem ofText_widthless (n : Nat) (t : Text) : Widthless (ofText n t) := by
  unfold ofText
  split
  · rfl
  · exact .bind (pairsOf_widthless n _) fun _ _ => trivial

theorem ofTextWith_widthless (expected n : Nat) (t : Text) : Widthless (ofTextWith expected n t) := by
  refine .bind (ofText_widthless n t) fun nested _ => ?_
  split
  · trivial
  · rfl

/-- The group, the subkey and the value of a pair. -/
theorem rows_ofTokens (line : NestedLine) : ∀ row ∈ line.rows, OfTokens 3 row := by
  intro row hrow
  obtain ⟨pair, -, rfl⟩ := List.mem_map.mp hrow
  exact ⟨_, rfl, rfl⟩

end NestedLine

theorem nestedRows_yields (content : Text) : Yields (fun rows => ∀ row ∈ rows, OfTokens 3 row) (nestedRows content) := by
  unfold nestedRows
  split
  · intro row hrow
    cases hrow
  · refine .bind (NestedLine.ofText_widthless 1 _) fun first _ => ?_
    refine .bind (eachNumbered_ends (NestedLine.ofTextWith_widthless _) _ 1) fun lines _ => ?_
    intro row hrow
    obtain ⟨line, -, hr⟩ := List.mem_flatMap.mp hrow
    exact line.rows_ofTokens row hr

/-! ## Kernel files -/

/-- The tokens that are there and the nulls behind them fill all columns, since no width that is
    accepted exceeds their number. -/
theorem Diskstats.row_yields (n : Nat) (t : Text) : Yields (Shaped (.kernel .diskstats)) (Diskstats.row n t) := by
  simp only [Diskstats.row]
  split
  · rename_i hw
    have hle : (Text.tokens t).length ≤ columns := by
      simp only [widths, Arity.accepts, List.contains_iff_mem, List.mem_cons, List.not_mem_nil, or_false] at hw
      unfold columns
      omega
    exact ⟨Text.tokens t, columns - (Text.tokens t).length, rfl, by omega⟩
  · rfl

theorem Mountinfo.row_yields (n : Nat) (t : Text) : Yields (OfTokens 10) (Mountinfo.row n t) := by
  simp only [Mountinfo.row]
  split
  · rfl
  · split
    · rfl
    · split
      · rfl
      · exact ⟨_, rfl, rfl⟩

theorem Meminfo.row_yields (n : Nat) (t : Text) : Yields (OfTokens 2) (Meminfo.row n t) := by
  unfold Meminfo.row
  split
  · exact ⟨_, rfl, rfl⟩
  · split
    · exact ⟨_, rfl, rfl⟩
    · rfl
  · rfl

theorem NetDev.row_yields (n : Nat) (t : Text) : Yields (OfTokens (counters + 1)) (NetDev.row n t) := by
  unfold NetDev.row
  split
  · rfl
  · rename_i interface data _
    dsimp only
    split
    · rename_i hw
      exact ⟨Text.trim interface :: Text.tokens data, rfl, congrArg Nat.succ hw⟩
    · rfl

/-- Behind the label there are enough counters, and exactly those asked for are taken. -/
theorem CpuTime.rows_yields (content : Text) :
    Yields (fun rows => ∀ row ∈ rows, OfTokens counters row) (CpuTime.rows content) := by
  unfold CpuTime.rows
  split
  · rfl
  · rename_i first _ _
    dsimp only
    split
    · rfl
    · rename_i hw
      intro row hrow
      refine ⟨((Text.tokens first).drop 1).take counters, List.mem_singleton.mp hrow, ?_⟩
      rw [List.length_take, List.length_drop]
      omega

theorem LoadAverage.rows_yields (content : Text) :
    Yields (fun rows => ∀ row ∈ rows, OfTokens 4 row) (LoadAverage.rows content) := by
  refine .bind (singleLine_widthless content) fun line _ => ?_
  split
  · intro row hrow
    rw [List.mem_singleton.mp hrow]
    exact ⟨_, rfl, rfl⟩
  · rfl

/-- The process id and the command name stand in front of the tokens behind the last parenthesis. -/
theorem ProcessFile.statRow_yields (content : Text) :
    Yields (OfTokens ProcessFile.statColumns) (ProcessFile.statRow content) := by
  refine .bind (singleLine_widthless content) fun line _ => ?_
  split
  · rename_i pid afterOpen _
    split
    · rename_i command afterClose _
      dsimp only
      split
      · rename_i hw
        exact ⟨Text.trim pid :: command :: Text.tokens afterClose, rfl, hw⟩
      · rfl
    · rfl
  · rfl

/-! ## Every format -/

theorem rows_shaped (format : Format) (content : Text) :
    Yields (fun rows => ∀ row ∈ rows, format.Shaped row) (format.rows content) := by
  cases format with
  | scalar type =>
    refine .bind (singleLine_widthless content) fun line _ row hrow => ?_
    rw [List.mem_singleton.mp hrow]
    exact ⟨_, rfl, rfl⟩
  | values type =>
    intro row hrow
    obtain ⟨value, -, rfl⟩ := List.mem_map.mp hrow
    exact ⟨_, rfl, rfl⟩
  | array type =>
    refine .bind (singleLine_widthless content) fun line _ row hrow => ?_
    exact ⟨Text.tokens line, List.mem_singleton.mp hrow⟩
  | flatKeyed => exact rowPerLine_yields flatRow_yields content
  | keySubkeyValue => exact rowPerLine_yields subkeyRow_yields content
  | nestedKeyed => exact nestedRows_yields content
  | quotedPairs => exact rowPerLine_yields quotedRow_yields content
  | kernel file =>
    cases file with
    | diskstats => exact rowPerLine_yields Diskstats.row_yields content
    | mountinfo => exact rowPerLine_yields Mountinfo.row_yields content
    | meminfo => exact rowPerLine_yields Meminfo.row_yields content
    | netDev => exact eachNumbered_ends NetDev.row_yields _ _
    | cpuTime => exact CpuTime.rows_yields content
    | loadAverage => exact LoadAverage.rows_yields content
    | processStat =>
      refine .map (ProcessFile.statRow_yields content) fun stat hstat row hrow => ?_
      rw [List.mem_singleton.mp hrow]
      exact hstat

/-! ## Widths -/

theorem OfTokens.length {width : Nat} {row : Row} (h : OfTokens width row) : row.length = width := by
  obtain ⟨tokens, rfl, hl⟩ := h
  rw [tokenRow, List.length_map, hl]

theorem Shaped.length {format : Format} {row : Row} (h : format.Shaped row) :
    row.length = format.signature.length := by
  unfold Shaped at h
  split at h
  · obtain ⟨items, rfl⟩ := h
    rfl
  · obtain ⟨tokens, missing, rfl, hl⟩ := h
    rw [List.length_append, tokenRow, List.length_map, List.length_replicate, hl]
    rfl
  · exact h.length

/-! ## Cells -/

/-- Arrays are read by the array format and by no other. -/
def Matched : Format → Bool
  | .scalar type | .values type => !type.isArray
  | .array type => type.isArray
  | .flatKeyed | .keySubkeyValue | .nestedKeyed | .quotedPairs | .kernel _ => true

/-- What may stand in a column of the format: what the column asks for, and in diskstats nothing. -/
def Takes (format : Format) (cell : Cell) (type : ColumnType) : Prop :=
  cell.Suits type ∨ format = .kernel .diskstats ∧ cell = .null

theorem signature_of_matched {format : Format} (hm : format.Matched = true) :
    (∃ type, format = .array type ∧ type.isArray = true) ∨ ∀ type ∈ format.signature, type.isArray = false := by
  cases format with
  | scalar type => exact Or.inr fun other ho => by rw [List.mem_singleton.mp ho]; simpa [Matched] using hm
  | values type => exact Or.inr fun other ho => by rw [List.mem_singleton.mp ho]; simpa [Matched] using hm
  | array type => exact Or.inl ⟨type, rfl, hm⟩
  | flatKeyed => exact Or.inr (by decide)
  | keySubkeyValue => exact Or.inr (by decide)
  | nestedKeyed => exact Or.inr (by decide)
  | quotedPairs => exact Or.inr (by decide)
  | kernel file => cases file <;> exact Or.inr (by decide)

/-- Tokens, and nulls where they are taken, fill columns that are not arrays. -/
theorem forall₂_takes_tokens {format : Format} {signature : Signature}
    (hs : ∀ type ∈ signature, type.isArray = false) :
    ∀ {row : Row}, row.length = signature.length →
      (∀ cell ∈ row, (∃ t, cell = .token t) ∨ format = .kernel .diskstats ∧ cell = .null) →
      List.Forall₂ format.Takes row signature := by
  induction signature with
  | nil =>
    intro row hl _
    rw [List.length_eq_zero_iff.mp hl]
    exact .nil
  | cons type types ih =>
    intro row hl hcells
    obtain ⟨htype, htypes⟩ := List.forall_mem_cons.mp hs
    cases row with
    | nil => cases hl
    | cons cell cells =>
      obtain ⟨hcell, hcells⟩ := List.forall_mem_cons.mp hcells
      refine .cons ?_ (ih htypes (Nat.succ.inj hl) hcells)
      rcases hcell with ⟨t, rfl⟩ | hnull
      · exact Or.inl (.token htype)
      · exact Or.inr hnull

theorem Shaped.forall₂_takes {format : Format} {row : Row} (hm : format.Matched = true) (h : format.Shaped row) :
    List.Forall₂ format.Takes row format.signature := by
  have hl := h.length
  rcases signature_of_matched hm with ⟨type, rfl, harray⟩ | hs
  · obtain ⟨items, rfl⟩ := h
    exact .cons (Or.inl (.list harray)) .nil
  · refine forall₂_takes_tokens hs hl fun cell hcell => ?_
    unfold Shaped at h
    split at h
    · exact absurd (hs _ List.mem_cons_self) (by simpa [Matched] using hm)
    · obtain ⟨tokens, missing, rfl, -⟩ := h
      rcases List.mem_append.mp hcell with hcell | hcell
      · obtain ⟨t, -, rfl⟩ := List.mem_map.mp hcell
        exact Or.inl ⟨t, rfl⟩
      · exact Or.inr ⟨rfl, (List.mem_replicate.mp hcell).2⟩
    · obtain ⟨tokens, rfl, -⟩ := h
      obtain ⟨t, -, rfl⟩ := List.mem_map.mp hcell
      exact Or.inl ⟨t, rfl⟩

end Format

end HostTables
