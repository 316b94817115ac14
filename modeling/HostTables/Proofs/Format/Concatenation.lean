/-
  HostTables.Proofs.Format.Concatenation — files that are read line by line can be put one behind the other.

  In six formats every line is read by itself (`LineWise`): what a line gives does not depend on its
  number, and a report on it carries that number and depends on it in no other way (`Follows`, one
  lemma for each rule). Hence two files with a line feed between them give the rows of the
  first and then those of the second; a fault in the first file is reported as it is without the
  second, and one in the second as it is without the first, but for its number, which counts the
  lines of the first as well (`rows_append`, `concatenated_rows`).
-/
import HostTables.Format
import HostTables.Proofs.Outcome
import HostTables.Proofs.Text.Fields

namespace HostTables

namespace ParseError

/-- The number of the line or row that the report is about. -/
def number? : ParseError → Option Nat
  | .tokenCount line _ _ | .unevenGroup line _ _ | .malformedPair line _ | .missingDelimiter line _
  | .mountLine line _ | .escape line _ => some line
  | .columnCount row _ _ | .value row _ _ => some row
  | .lineCount _ _ => none

/-- The same report about the line or row `k` further on. -/
def later (k : Nat) : ParseError → ParseError
  | .tokenCount line expected actual => .tokenCount (line + k) expected actual
  | .lineCount expected actual => .lineCount expected actual
  | .unevenGroup line expected actual => .unevenGroup (line + k) expected actual
  | .malformedPair line token => .malformedPair (line + k) token
  | .missingDelimiter line delimiter => .missingDelimiter (line + k) delimiter
  | .mountLine line cause => .mountLine (line + k) cause
  | .escape line cause => .escape (line + k) cause
  | .columnCount row expected actual => .columnCount (row + k) expected actual
  | .value row column cause => .value (row + k) column cause

theorem number?_later (k : Nat) (e : ParseError) : (e.later k).number? = e.number?.map (· + k) := by
  cases e <;> rfl

end ParseError

namespace Format

/-! ## Rules for a line -/

/-- Reading one item as number `n` and as number `n + k`: the values are the same, and so are the reports
    but for their numbers. -/
inductive Follows {α : Type} (n k : Nat) : Except ParseError α → Except ParseError α → Prop
  | ok (a : α) : Follows n k (.ok a) (.ok a)
  | error {e : ParseError} : e.number? = some n → Follows n k (.error e) (.error (e.later k))

namespace Follows

variable {α β : Type} {n k : Nat} {x y : Except ParseError α}

theorem eq_mapError (h : Follows n k x y) : y = x.mapError (·.later k) := by
  cases h with
  | ok a => rfl
  | error _ => rfl

theorem number (h : Follows n k x y) {e : ParseError} (hx : x = .error e) : e.number? = some n := by
  cases h with
  | ok a => cases hx
  | error hn =>
    cases hx
    exact hn

theorem map (h : Follows n k x y) (f : α → β) : Follows n k (f <$> x) (f <$> y) := by
  cases h with
  | ok a => exact .ok (f a)
  | error hn => exact .error hn

end Follows

theorem flatRow_follows (n k : Nat) (t : Text) : Follows n k (flatRow n t) (flatRow (n + k) t) := by
  unfold flatRow
  generalize Text.tokens t = tokens
  match tokens with
  | [key, value] => exact .ok _
  | [] | [_] | _ :: _ :: _ :: _ => exact .error rfl

theorem subkeyRow_follows (n k : Nat) (t : Text) : Follows n k (subkeyRow n t) (subkeyRow (n + k) t) := by
  unfold subkeyRow
  generalize Text.tokens t = tokens
  match tokens with
  | [subkey, value] => exact .ok _
  | [key, subkey, value] => exact .ok _
  | [] | [_] | _ :: _ :: _ :: _ :: _ => exact .error rfl

theorem quotedPair_follows (n k : Nat) (t : Text) : Follows n k (quotedPair n t) (quotedPair (n + k) t) := by
  unfold quotedPair
  cases Text.splitOnce? '=' t with
  | none => exact .error rfl
  | some parts =>
    obtain ⟨key, quoted⟩ := parts
    by_cases hkey : key = []
    · simp only [hkey, if_true]
      exact .error rfl
    · simp only [hkey, if_false]
      cases Quoted.decode quoted with
      | ok value => exact .ok _
      | error cause => exact .error rfl

theorem quotedRow_follows (n k : Nat) (t : Text) : Follows n k (quotedRow n t) (quotedRow (n + k) t) :=
  (quotedPair_follows n k t).map fun pair => tokenRow [pair.1, pair.2]

theorem Diskstats.row_follows (n k : Nat) (t : Text) : Follows n k (Diskstats.row n t) (Diskstats.row (n + k) t) := by
  simp only [Diskstats.row]
  by_cases hwidth : widths.accepts (Text.tokens t).length
  · simp only [hwidth, if_true]
    exact .ok _
  · simp only [hwidth]
    exact .error rfl

theorem Mountinfo.row_follows (n k : Nat) (t : Text) : Follows n k (Mountinfo.row n t) (Mountinfo.row (n + k) t) := by
  simp only [Mountinfo.row]
  by_cases hcount : (Text.tokens t).length < leastTokens
  · simp only [hcount, if_true]
    exact .error rfl
  · simp only [hcount, if_false]
    cases MountLine.ofText t with
    | error cause => exact .error rfl
    | ok mount =>
      dsimp only
      cases Text.splitOnce? ':' mount.device with
      | none => exact .error rfl
      | some numbers => exact .ok _

theorem Meminfo.row_follows (n k : Nat) (t : Text) : Follows n k (Meminfo.row n t) (Meminfo.row (n + k) t) := by
  unfold Meminfo.row
  generalize Text.tokens t = tokens
  match tokens with
  | [key, value] => exact .ok _
  | [key, value, unit] =>
    dsimp only
    cases Coerce.sizeToBytes value unit with
    | ok bytes => exact .ok _
    | error cause => exact .error rfl
  | [] | [_] | _ :: _ :: _ :: _ :: _ => exact .error rfl

/-! ## Files -/

/-- The formats in which every line is a row by itself. -/
inductive LineWise : Format → Prop
  | flatKeyed : LineWise .flatKeyed
  | keySubkeyValue : LineWise .keySubkeyValue
  | quotedPairs : LineWise .quotedPairs
  | diskstats : LineWise (.kernel .diskstats)
  | mountinfo : LineWise (.kernel .mountinfo)
  | meminfo : LineWise (.kernel .meminfo)

/-- Such a format is a rule for a line. -/
theorem LineWise.rule {format : Format} (h : format.LineWise) :
    ∃ row, (∀ content, format.rows content = rowPerLine row content) ∧ ∀ n k t, Follows n k (row n t) (row (n + k) t) := by
  cases h with
  | flatKeyed => exact ⟨flatRow, fun _ => rfl, flatRow_follows⟩
  | keySubkeyValue => exact ⟨subkeyRow, fun _ => rfl, subkeyRow_follows⟩
  | quotedPairs => exact ⟨quotedRow, fun _ => rfl, quotedRow_follows⟩
  | diskstats => exact ⟨Diskstats.row, fun _ => rfl, Diskstats.row_follows⟩
  | mountinfo => exact ⟨Mountinfo.row, fun _ => rfl, Mountinfo.row_follows⟩
  | meminfo => exact ⟨Meminfo.row, fun _ => rfl, Meminfo.row_follows⟩

/-- The lines of the second file are read behind those of the first, so only their numbers change. -/
theorem rows_append {format : Format} (h : format.LineWise) (a b : Text) :
    format.rows (a ++ '\n' :: b) =
      format.rows a >>= fun front => (front ++ ·) <$> (format.rows b).mapError (·.later (Text.lines a).length) := by
  obtain ⟨row, hrows, hfollows⟩ := h.rule
  have hlines : Text.lines (a ++ '\n' :: b) = Text.lines a ++ Text.lines b := Text.fields_append_cons a b
  have hlater : eachNumbered row (1 + (Text.lines a).length) (Text.lines b) =
      (eachNumbered row 1 (Text.lines b)).mapError (·.later (Text.lines a).length) :=
    eachNumbered_add (fun n t => (hfollows n _ t).eq_mapError) _ 1
  simp only [hrows, rowPerLine, hlines, eachNumbered_append, hlater]

/-- A report has the number of a line that is there. -/
theorem number_of_rows_error {format : Format} (h : format.LineWise) {content : Text} {e : ParseError}
    (he : format.rows content = .error e) : ∃ n, e.number? = some n ∧ 1 ≤ n ∧ n ≤ (Text.lines content).length := by
  obtain ⟨row, hrows, hfollows⟩ := h.rule
  rw [hrows] at he
  obtain ⟨before, line, after, hlines, hline, -⟩ := eachNumbered_eq_error.mp he
  refine ⟨1 + before.length, (hfollows _ 0 line).number hline, by omega, ?_⟩
  rw [hlines, List.length_append, List.length_cons]
  omega

/-- Two files, the second behind a line feed: the rows are put together, a fault of the first stays as
    it is, and one of the second gets a number that is larger by the lines of the first. -/
theorem concatenated_rows {format : Format} (h : format.LineWise) (a b : Text) :
    (∀ front back, format.rows a = .ok front → format.rows b = .ok back →
      format.rows (a ++ '\n' :: b) = .ok (front ++ back)) ∧
    (∀ e, format.rows a = .error e → format.rows (a ++ '\n' :: b) = .error e) ∧
    ∀ front e, format.rows a = .ok front → format.rows b = .error e →
      format.rows (a ++ '\n' :: b) = .error (e.later (Text.lines a).length) ∧
      ∃ n, 1 ≤ n ∧ n ≤ (Text.lines b).length ∧ e.number? = some n ∧
        (e.later (Text.lines a).length).number? = some (n + (Text.lines a).length) := by
  rw [rows_append h]
  refine ⟨?_, ?_, ?_⟩
  · intro front back ha hb
    rw [ha, hb]
    rfl
  · intro e ha
    rw [ha]
    rfl
  · intro front e ha hb
    obtain ⟨n, hn, hfirst, hlast⟩ := number_of_rows_error h hb
    refine ⟨?_, n, hfirst, hlast, hn, ?_⟩
    · rw [ha, hb]
      rfl
    · rw [ParseError.number?_later, hn]
      rfl

/-- Two lines with an empty one between them and no line feed at the end. -/
def memoryFile : Text := "MemTotal: 2 kB\n\nMemFree: 7".toList

/-- A line whose unit is not known, behind one that is read. -/
def tornMemoryFile : Text := "Cached: 1 kB\nDirty: 1 xB\n".toList

theorem memory_files_concatenate :
    (Format.kernel .meminfo).rows (memoryFile ++ '\n' :: "Slab: 3\n".toList) =
      .ok [tokenRow ["MemTotal".toList, "2048".toList], tokenRow ["MemFree".toList, ['7']],
        tokenRow ["Slab".toList, ['3']]] ∧
    (Format.kernel .meminfo).rows (tornMemoryFile ++ '\n' :: memoryFile) =
      .error (.value 2 2 (.unknownUnit "xB".toList)) ∧
    (Format.kernel .meminfo).rows (memoryFile ++ '\n' :: tornMemoryFile) =
      .error (.value 4 2 (.unknownUnit "xB".toList)) := by
  have hmemory : (Format.kernel .meminfo).rows memoryFile =
      .ok [tokenRow ["MemTotal".toList, "2048".toList], tokenRow ["MemFree".toList, ['7']]] := by decide +kernel
  have htorn : (Format.kernel .meminfo).rows tornMemoryFile = .error (.value 2 2 (.unknownUnit "xB".toList)) := by
    decide
  obtain ⟨rows, -, -⟩ := concatenated_rows .meminfo memoryFile "Slab: 3\n".toList
  obtain ⟨-, first, -⟩ := concatenated_rows .meminfo tornMemoryFile memoryFile
  obtain ⟨-, -, second⟩ := concatenated_rows .meminfo memoryFile tornMemoryFile
  exact ⟨rows _ _ hmemory (by decide), first _ htorn, (second _ _ hmemory htorn).1⟩

end Format

end HostTables
