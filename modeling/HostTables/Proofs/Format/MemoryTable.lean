/-
  HostTables.Proofs.Format.MemoryTable — the entries of meminfo as rows of bytes.

  An entry has a key, a number and perhaps a unit (`MemoryEntry`). Its bytes are the number times a power of 1024.
  With a unit they are computed when the line is read, and written as a numeral again; without one the numeral of the
  line is kept. Either way the cell denotes the bytes (`denotes_cell`), so the column of integers has them if 64
  bits do. What 64 bits do not hold is reported where it is first seen: with a unit when the lines are read
  (`row_of_onLine_tooLarge`), without one not before the table is made (`coerceRow_of_tooLarge`).

  `memory_entries_read`: which of the three it is for a file of entries, and for which entry.
-/
import HostTables.Format
import HostTables.Proofs.Coerce.Integers
import HostTables.Proofs.Coerce.SizeOutcomes
import HostTables.Proofs.Table.FirstFault

namespace HostTables.Format

/-- A name of a unit, in any case. -/
structure UnitName where
  unit : SizeUnit
  name : Text
  names : unit.Names name

/-- What a line of meminfo says, and how its number and its unit are written. -/
structure MemoryEntry where
  key : Text
  number : Int
  numeral : Text
  denotes : Decimal.Denotes numeral number
  unit : Option UnitName

namespace MemoryEntry

/-! ## How a file is written -/

/-- What is said, without how it is written. -/
def said (entry : MemoryEntry) : Text × Int × Option SizeUnit :=
  (entry.key, entry.number, entry.unit.map UnitName.unit)

def bytes (entry : MemoryEntry) : Int :=
  match entry.unit with
  | none => entry.number
  | some written => entry.number * 1024 ^ written.unit.power

/-- The bytes are in the range of 64 bits. -/
def Fits (entry : MemoryEntry) : Prop := Signed.InRange 64 entry.bytes

instance (entry : MemoryEntry) : Decidable entry.Fits := inferInstanceAs (Decidable (_ ∧ _))

/-- The key with a colon, the number, and the unit if there is one. -/
def tokens (entry : MemoryEntry) : List Text :=
  match entry.unit with
  | none => [entry.key ++ [':'], entry.numeral]
  | some written => [entry.key ++ [':'], entry.numeral, written.name]

/-- The lines of the entries in order, with runs of spaces anywhere around their tokens and empty lines anywhere. -/
def Written (entries : List MemoryEntry) (content : Text) : Prop :=
  ∃ lines, List.Forall₂ (fun entry line => Text.Spread ' ' entry.tokens line) entries lines ∧
    Text.Spread '\n' lines content

/-- The values of the entry in a table. -/
def Shows (entry : MemoryEntry) (values : List Value) : Prop :=
  ∃ word : Signed 64, word.val = entry.bytes ∧ values = [.text entry.key, .int8 word]

/-- The row of the entry: with a unit its bytes are written anew. -/
def row (entry : MemoryEntry) : Row :=
  match entry.unit with
  | none => tokenRow [entry.key, entry.numeral]
  | some _ => tokenRow [entry.key, Decimal.ofInt entry.bytes]

variable {entry : MemoryEntry} {line : Text} {n : Nat}

/-- The unit as kernels write it. -/
def unitName : SizeUnit → UnitName
  | .byte => ⟨.byte, "bytes".toList, by decide⟩
  | .kilobyte => ⟨.kilobyte, "kB".toList, by decide⟩
  | .megabyte => ⟨.megabyte, "MB".toList, by decide⟩
  | .gigabyte => ⟨.gigabyte, "GB".toList, by decide⟩
  | .terabyte => ⟨.terabyte, "TB".toList, by decide⟩
  | .petabyte => ⟨.petabyte, "PB".toList, by decide⟩

/-- The entry that says this, with the shortest numeral. -/
def ofSaid (said : Text × Int × Option SizeUnit) : MemoryEntry where
  key := said.1
  number := said.2.1
  numeral := Decimal.ofInt said.2.1
  denotes := Decimal.denotes_ofInt said.2.1
  unit := said.2.2.map unitName

theorem tokens_ne_nil (entry : MemoryEntry) : entry.tokens ≠ [] := by
  unfold MemoryEntry.tokens
  split <;> exact List.cons_ne_nil _ _

theorem said_ofSaid (said : Text × Int × Option SizeUnit) : (ofSaid said).said = said := by
  obtain ⟨key, number, unit⟩ := said
  cases unit with
  | none => rfl
  | some unit => cases unit <;> rfl

theorem token_ofSaid {said : Text × Int × Option SizeUnit} (h : ' ' ∉ said.1 ∧ '\n' ∉ said.1) :
    ∀ p ∈ (ofSaid said).tokens, p ≠ [] ∧ ' ' ∉ p ∧ '\n' ∉ p := by
  obtain ⟨key, number, unit⟩ := said
  have hkey : key ++ [':'] ≠ [] ∧ ' ' ∉ key ++ [':'] ∧ '\n' ∉ key ++ [':'] := by simp [h]
  have hnumeral := Decimal.token_ofInt number
  cases unit with
  | none => simp [MemoryEntry.tokens, ofSaid, hkey, hnumeral]
  | some unit =>
    have hname : ∀ unit, (unitName unit).name ≠ [] ∧ ' ' ∉ (unitName unit).name ∧ '\n' ∉ (unitName unit).name := by
      intro unit
      cases unit <;> decide
    simp [MemoryEntry.tokens, ofSaid, hkey, hnumeral, hname]

/-- Whatever entries are to be said, they can be written. -/
theorem exists_written {said : List (Text × Int × Option SizeUnit)} (h : ∀ s ∈ said, ' ' ∉ s.1 ∧ '\n' ∉ s.1) :
    ∃ entries content, entries.map MemoryEntry.said = said ∧ Written entries content := by
  have htokens : ∀ pieces ∈ (said.map ofSaid).map MemoryEntry.tokens,
      pieces ≠ [] ∧ ∀ p ∈ pieces, p ≠ [] ∧ ' ' ∉ p ∧ '\n' ∉ p := by
    simp only [List.forall_mem_map]
    exact fun s hs => ⟨tokens_ne_nil _, token_ofSaid (h s hs)⟩
  obtain ⟨lines, content, honline, hspread⟩ := Text.exists_spread_lines (by decide) htokens
  refine ⟨said.map ofSaid, content, ?_, lines, List.forall₂_map_left_iff.mp honline, hspread⟩
  rw [List.map_map]
  exact (List.map_congr_left fun s _ => said_ofSaid s).trans (List.map_id said)

/-! ## Lines -/

theorem dropColon_append (key : Text) : Meminfo.dropColon (key ++ [':']) = key := by
  simp [Meminfo.dropColon]

/-- The numeral is one of a size, whose bytes in the unit are those of the entry. -/
theorem exists_size {written : UnitName} (hunit : entry.unit = some written) :
    ∃ size : SizeLiteral, size.Spells entry.numeral ∧ size.bytes written.unit = entry.bytes := by
  obtain ⟨size, hspells, hbytes⟩ := SizeLiteral.exists_spells_of_denotes entry.denotes
  refine ⟨size, hspells, ?_⟩
  have hfactor : (written.unit.factor : Int) = 1024 ^ written.unit.power := Nat.cast_pow 1024 written.unit.power
  rw [hbytes, hfactor, MemoryEntry.bytes, hunit]

theorem row_of_onLine (h : Text.Spread ' ' entry.tokens line) (hfits : entry.unit ≠ none → entry.Fits) :
    Meminfo.row n line = .ok entry.row := by
  have htokens : Text.tokens line = entry.tokens := Text.fields_of_spread h
  rw [Meminfo.row, htokens, MemoryEntry.tokens, MemoryEntry.row]
  cases hunit : entry.unit with
  | none => simp only [dropColon_append]
  | some written =>
    obtain ⟨size, hspells, hbytes⟩ := exists_size hunit
    obtain ⟨word, hword⟩ := Signed.inRange_iff.mp (hfits (by simp [hunit]))
    have hread : Coerce.sizeToBytes entry.numeral written.name = .ok word :=
      sizeToBytes_of_inRange (SizeUnit.namedIn_of_names written.names) (SizeLiteral.spelledIn_of_spells hspells)
        (hword.trans hbytes.symm)
    simp only [dropColon_append, hread, hword]

theorem row_of_onLine_tooLarge (h : Text.Spread ' ' entry.tokens line) {written : UnitName}
    (hunit : entry.unit = some written) (hlarge : ¬ entry.Fits) :
    Meminfo.row n line = .error (.value n 2 (.outOfRange (entry.numeral ++ ' ' :: written.name))) := by
  have htokens : entry.tokens = [entry.key ++ [':'], entry.numeral, written.name] := by
    rw [MemoryEntry.tokens, hunit]
  rw [htokens] at h
  obtain ⟨size, hspells, hbytes⟩ := exists_size hunit
  have hread := sizeToBytes_of_not_inRange (SizeUnit.namedIn_of_names written.names)
    (SizeLiteral.spelledIn_of_spells hspells) (hbytes ▸ hlarge)
  -- Nothing is trimmed from the text of the error.
  have hnumeral : entry.numeral.Solid := SizeLiteral.solid_of_spells hspells
  have hname : written.name.Solid := SizeUnit.solid_of_names written.names
  have hne : ∀ p ∈ [entry.key ++ [':'], entry.numeral, written.name], p ≠ [] := fun p hp =>
    (Text.piece_of_spread h p hp).1
  have htight : Text.Tight (entry.numeral ++ [' '] ++ written.name) :=
    Text.tight_append (hne _ (by simp)) (hne _ (by simp)) (Text.tight_of_solid hnumeral).1 (Text.ended_of_solid hname)
  rw [Text.trim_of_solid hnumeral, ← List.singleton_append, ← List.append_assoc, Text.trim_of_tight htight,
    List.append_assoc] at hread
  rw [Meminfo.row, Text.tokens, Text.fields_of_spread h]
  simp only [hread]
  rfl

/-! ## Cells -/

/-- The numeral in the row is one of the bytes. -/
theorem denotes_cell (entry : MemoryEntry) : ∃ numeral, entry.row = tokenRow [entry.key, numeral] ∧
    Decimal.Denotes numeral entry.bytes ∧ (entry.unit = none → numeral = entry.numeral) := by
  unfold MemoryEntry.row MemoryEntry.bytes
  cases hunit : entry.unit with
  | none => exact ⟨_, rfl, entry.denotes, fun _ => rfl⟩
  | some written => exact ⟨_, rfl, Decimal.denotes_ofInt _, nofun⟩

theorem coerceRow_of_fits (h : entry.Fits) : ∃ values, entry.Shows values ∧
    ∀ n, Table.coerceRow [.text, .int8] n entry.row = .ok values := by
  obtain ⟨numeral, hrow, hdenotes, -⟩ := entry.denotes_cell
  obtain ⟨word, hword, hval⟩ := (Coerce.toInt64_exact.ok numeral entry.bytes).mpr ⟨Or.inl hdenotes, h⟩
  refine ⟨[.text entry.key, .int8 word], ⟨word, hval, rfl⟩, fun n => ?_⟩
  simp [hrow, Table.coerceRow, Table.coerceCells, tokenRow, Cell.coerce, hword]

/-- A number without a unit that 64 bits do not hold is reported as it stands on its line. -/
theorem coerceRow_of_tooLarge (hunit : entry.unit = none) (h : ¬ entry.Fits) (n : Nat) :
    Table.coerceRow [.text, .int8] n entry.row = .error (.value n 2 (.invalid entry.numeral "bigint")) := by
  obtain ⟨numeral, hrow, hdenotes, hsame⟩ := entry.denotes_cell
  rw [hsame hunit] at hrow hdenotes
  have hstands : ∀ m, Coerce.Stands64 entry.numeral m → ¬ Signed.InRange 64 m := by
    intro m hm
    rcases hm with hm | ⟨hmax, -⟩
    · rwa [Decimal.Denotes.unique hm hdenotes]
    · exact absurd hdenotes (Coerce.not_denotes_of_isMax hmax _)
  have hcell : Coerce.toInt64 entry.numeral = .error (.invalid entry.numeral "bigint") :=
    (Coerce.toInt64_exact.error _ _).mpr ⟨hstands, rfl⟩
  simp [hrow, Table.coerceRow, Table.coerceCells, tokenRow, Cell.coerce, hcell]

/-! ## Files -/

variable {entries : List MemoryEntry} {content : Text} {path : Path}

theorem lines_of_written (h : Written entries content) :
    List.Forall₂ (fun entry line => Text.Spread ' ' entry.tokens line) entries (Text.lines content) := by
  obtain ⟨lines, honline, hspread⟩ := h
  rwa [Text.lines, Text.fields_of_spread hspread]

theorem rows_of_written (h : Written entries content) (hfits : ∀ entry ∈ entries, entry.unit ≠ none → entry.Fits) :
    (Format.kernel .meminfo).rows content = .ok (entries.map row) := by
  show eachNumbered Meminfo.row 1 (Text.lines content) = .ok (entries.map row)
  refine eachNumbered_eq_ok ?_
  rw [List.forall₂_map_right_iff]
  refine ((List.forall₂_and_left _ _).mpr ⟨hfits, lines_of_written h⟩).flip.imp fun line entry hentry n => ?_
  exact row_of_onLine hentry.2 hentry.1

/-- An entry with a unit is refused before any table is made. -/
theorem rows_of_tooLarge (h : Written entries content) {i : Nat} {entry : MemoryEntry}
    (hfirst : First (fun entry => entry.unit ≠ none ∧ ¬ entry.Fits) entries i entry) {written : UnitName}
    (hunit : entry.unit = some written) : (Format.kernel .meminfo).rows content =
      .error (.value (i + 1) 2 (.outOfRange (entry.numeral ++ ' ' :: written.name))) := by
  show eachNumbered Meminfo.row 1 (Text.lines content) = _
  refine eachNumbered_of_first (lines_of_written h) hfirst ?_ ?_
  · intro line hline
    rw [row_of_onLine_tooLarge hline hunit hfirst.has.2, Nat.add_comm]
  · intro other line n hline hother
    refine ⟨other.row, row_of_onLine hline fun hunit => ?_⟩
    by_contra hlarge
    exact hother ⟨hunit, hlarge⟩

theorem assemble_of_fits (hne : entries ≠ []) (h : ∀ entry ∈ entries, entry.Fits) :
    ∃ table, Table.assemble (entries.map row) [.text, .int8] (.file path) = .ok table ∧
      table.columns = [.text, .int8] ∧ List.Forall₂ Shows entries table.rows := by
  have hvalues : ∀ entry ∈ entries, ∃ values, entry.Shows values ∧
      ∀ n, Table.coerceRow [.text, .int8] n entry.row = .ok values :=
    fun entry hentry => coerceRow_of_fits (h entry hentry)
  choose! values hvalues using hvalues
  refine ⟨⟨[.text, .int8], entries.map values⟩, Table.assemble_eq_ok (by simpa using hne) ?_ path, rfl, ?_⟩
  · rw [List.forall₂_map_left_iff, List.forall₂_map_right_iff, List.forall₂_same]
    exact fun entry hentry => (hvalues entry hentry).2
  · rw [List.forall₂_map_right_iff, List.forall₂_same]
    exact fun entry hentry => (hvalues entry hentry).1

theorem assemble_of_tooLarge {i : Nat} {entry : MemoryEntry}
    (hsized : ∀ entry ∈ entries, entry.unit ≠ none → entry.Fits)
    (hfirst : First (fun entry => ¬ entry.Fits) entries i entry) :
    Table.assemble (entries.map row) [.text, .int8] (.file path) =
      .error (.malformed path (.value (i + 1) 2 (.invalid entry.numeral "bigint"))) := by
  have hunit : entry.unit = none := by
    by_contra hunit
    exact hfirst.has (hsized entry (List.mem_of_getElem? hfirst.here) hunit)
  refine Table.assemble_eq_malformed_iff.mpr ⟨rfl, ?_⟩
  have hrows : List.Forall₂ (fun entry cells => cells = row entry) entries (entries.map row) := by
    rw [List.forall₂_map_right_iff, List.forall₂_same]
    exact fun _ _ => rfl
  refine eachNumbered_of_first hrows hfirst ?_ ?_
  · rintro _ rfl
    rw [coerceRow_of_tooLarge hunit hfirst.has, Nat.add_comm]
  · rintro other _ n rfl hother
    obtain ⟨values, -, hvalues⟩ := coerceRow_of_fits (not_not.mp hother)
    exact ⟨values, hvalues n⟩

/-- All keys, numbers and units can be written. A file of entries is read and made a table that has the key and the
    bytes of each, in order, if 64 bits hold them all. If they do not hold those of an entry with a unit, the
    first such entry is reported when the file is read, and otherwise the first entry that they do not hold is when the
    table is made, both with its line and the second column. -/
theorem memory_entries_read :
    (∀ said : List (Text × Int × Option SizeUnit), (∀ s ∈ said, ' ' ∉ s.1 ∧ '\n' ∉ s.1) →
      ∃ entries content, entries.map MemoryEntry.said = said ∧ Written entries content) ∧
    ∀ entries content path, entries ≠ [] → Written entries content →
      ((∀ entry ∈ entries, entry.Fits) → ∃ rows table, (Format.kernel .meminfo).rows content = .ok rows ∧
        Table.assemble rows [.text, .int8] (.file path) = .ok table ∧ table.columns = [.text, .int8] ∧
        List.Forall₂ Shows entries table.rows) ∧
      ((∃ entry ∈ entries, entry.unit ≠ none ∧ ¬ entry.Fits) → ∃ i entry written,
        First (fun entry => entry.unit ≠ none ∧ ¬ entry.Fits) entries i entry ∧ entry.unit = some written ∧
        (Format.kernel .meminfo).rows content =
          .error (.value (i + 1) 2 (.outOfRange (entry.numeral ++ ' ' :: written.name)))) ∧
      ((∀ entry ∈ entries, entry.unit ≠ none → entry.Fits) → (∃ entry ∈ entries, ¬ entry.Fits) → ∃ rows i entry,
        (Format.kernel .meminfo).rows content = .ok rows ∧ First (fun entry => ¬ entry.Fits) entries i entry ∧
        Table.assemble rows [.text, .int8] (.file path) =
          .error (.malformed path (.value (i + 1) 2 (.invalid entry.numeral "bigint")))) := by
  refine ⟨fun _ => exists_written, fun entries content path hne hcontent => ⟨?_, ?_, ?_⟩⟩
  · intro hfits
    obtain ⟨table, htable, hshows⟩ := assemble_of_fits hne hfits
    exact ⟨_, table, rows_of_written hcontent fun entry hentry _ => hfits entry hentry, htable, hshows⟩
  · intro hlarge
    obtain ⟨i, entry, hfirst⟩ := exists_first hlarge
    obtain ⟨written, hunit⟩ := Option.ne_none_iff_exists'.mp hfirst.has.1
    exact ⟨i, entry, written, hfirst, hunit, rows_of_tooLarge hcontent hfirst hunit⟩
  · intro hsized hlarge
    obtain ⟨i, entry, hfirst⟩ := exists_first hlarge
    exact ⟨_, i, entry, rows_of_written hcontent hsized, hfirst, assemble_of_tooLarge hsized hfirst⟩

theorem written_of_tokens (h : (Text.lines content).map Text.tokens = entries.map MemoryEntry.tokens) :
    Written entries content := by
  refine ⟨Text.lines content, ?_, Text.spread_fields content⟩
  rw [← List.forall₂_eq_eq_eq, List.forall₂_map_left_iff, List.forall₂_map_right_iff] at h
  refine h.flip.imp fun entry line hline => ?_
  rw [← hline]
  exact Text.spread_fields line

/-- The entry of so many petabytes, with the unit in unusual case. -/
def petabytes (key : Text) (number : Int) : MemoryEntry :=
  { ofSaid (key, number, none) with unit := some ⟨.petabyte, "pB".toList, by decide⟩ }

def top : MemoryEntry := ofSaid ("Top:".toList, 2 ^ 63 - 1, none)

def bottom : MemoryEntry := petabytes "Bottom".toList (-2 ^ 13)

def above : MemoryEntry := petabytes "Above".toList (2 ^ 13)

def below : MemoryEntry := ofSaid ("Below".toList, -2 ^ 63 - 1, none)

def edges : Text := "Top:: 9223372036854775807\n\n Bottom:   -8192 pB \n".toList

/-- Neither number is in range. -/
def outside : Text := "Below: -9223372036854775809\nAbove: 8192 pB\n".toList

def half : Text := "Bottom: -8192 pB\nBelow: -9223372036854775809".toList

def source : Path := .ofString "/proc/meminfo"

/-- Both ends of the range are read, and of two colons behind a key one is left. Past the upper end a size is refused
    when the file is read, also behind a number past the lower end, which is itself refused when the table is made. -/
theorem edges_read :
    (∃ rows table, (Format.kernel .meminfo).rows edges = .ok rows ∧
      Table.assemble rows [.text, .int8] (.file source) = .ok table ∧
      table.rows = [[.text "Top:".toList, .int8 (.maxValue 64)], [.text "Bottom".toList, .int8 (.minValue 64)]]) ∧
    (Format.kernel .meminfo).rows outside = .error (.value 2 2 (.outOfRange "8192 pB".toList)) ∧
    ∃ rows, (Format.kernel .meminfo).rows half = .ok rows ∧
      Table.assemble rows [.text, .int8] (.file source) =
        .error (.malformed source (.value 2 2 (.invalid "-9223372036854775809".toList "bigint"))) := by
  obtain ⟨-, read⟩ := memory_entries_read
  have htop : top.Fits := by decide
  have hbottom : bottom.Fits := by decide
  have hbelow : ¬ below.Fits := by decide
  have habove : ¬ above.Fits := by decide
  refine ⟨?_, ?_, ?_⟩
  · have hwritten : Written [top, bottom] edges := written_of_tokens (by decide +kernel)
    obtain ⟨fit, -, -⟩ := read _ _ source (List.cons_ne_nil _ _) hwritten
    obtain ⟨rows, table, hrows, htable, -, hshows⟩ := fit (by simp [htop, hbottom])
    simp only [List.forall₂_cons_left_iff, List.forall₂_nil_left_iff] at hshows
    obtain ⟨_, _, ⟨largest, hlargest, rfl⟩, ⟨_, _, ⟨smallest, hsmallest, rfl⟩, rfl, rfl⟩, hvalues⟩ := hshows
    obtain rfl : largest = .maxValue 64 := Signed.ext (hlargest.trans (by decide))
    obtain rfl : smallest = .minValue 64 := Signed.ext (hsmallest.trans (by decide))
    exact ⟨rows, table, hrows, htable, hvalues⟩
  · have hwritten : Written [below, above] outside := written_of_tokens (by decide +kernel)
    obtain ⟨-, large, -⟩ := read _ _ source (List.cons_ne_nil _ _) hwritten
    obtain ⟨i, entry, written, hfirst, hunit, hrows⟩ := large ⟨above, by simp, nofun, habove⟩
    rcases first_cons_iff.mp hfirst with ⟨⟨hsized, -⟩, -⟩ | ⟨-, j, rfl, hbehind⟩
    · exact absurd rfl hsized
    · rcases first_cons_iff.mp hbehind with ⟨-, rfl, rfl⟩ | ⟨hnot, -⟩
      · cases hunit
        exact hrows
      · exact absurd ⟨nofun, habove⟩ hnot
  · have hwritten : Written [bottom, below] half := written_of_tokens (by decide +kernel)
    obtain ⟨-, -, late⟩ := read _ _ source (List.cons_ne_nil _ _) hwritten
    have hsized : ∀ entry ∈ [bottom, below], entry.unit ≠ none → entry.Fits :=
      List.forall_mem_cons.mpr ⟨fun _ => hbottom, List.forall_mem_singleton.mpr fun hunit => absurd rfl hunit⟩
    obtain ⟨rows, i, entry, hrows, hfirst, htable⟩ := late hsized ⟨below, by simp, hbelow⟩
    refine ⟨rows, hrows, ?_⟩
    rcases first_cons_iff.mp hfirst with ⟨hlarge, -⟩ | ⟨-, j, rfl, hbehind⟩
    · exact absurd hbottom hlarge
    · rcases first_cons_iff.mp hbehind with ⟨-, rfl, rfl⟩ | ⟨hnot, -⟩
      · exact htable
      · exact absurd hbelow hnot

end MemoryEntry

end HostTables.Format
