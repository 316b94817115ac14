/-
  HostTables.Proofs.Format.ProcessStat — a process gives itself a name, and its `stat` line is read all the same.

  The line is the process id, the command name in parentheses, and tokens. The name is chosen by the
  process and may have anything in it but a line feed, so also what looks like the end of the name
  and more tokens. What stands between the first opening and the last closing parenthesis of the
  only line is the name, whatever it is (`statRow_of_line`, `statRow_eq_ok_iff`). Since neither the
  id nor the tokens have a parenthesis there, a line that is written for a process (`Written`) is read as
  its id, its name and its tokens, if these are as many as there are columns (`stat_round_trip`).
-/
import HostTables.Format.ProcessFile
import HostTables.Number.Decimal
import HostTables.Proofs.Format.Signature
import HostTables.Proofs.Text.Words

namespace HostTables.Format

namespace ProcessFile

/-! ## Reading -/

variable {content before command after : Text} {row : Row}

/-- The line is cut at its first `(` and at its last `)`. -/
theorem statRow_of_line (hline : Text.lines content = [before ++ '(' :: command ++ ')' :: after])
    (hopen : '(' ∉ before) (hclose : ')' ∉ after) : statRow content =
      if (Text.tokens after).length + 2 = statColumns then .ok (tokenRow (Text.trim before :: command :: Text.tokens after))
      else .error (.tokenCount 1 (.exactly statColumns) ((Text.tokens after).length + 2)) := by
  have hfirst : Text.splitOnce? '(' (before ++ '(' :: command ++ ')' :: after) = some (before, command ++ ')' :: after) :=
    Text.splitOnce?_eq_some_iff.mpr ⟨by simp, hopen⟩
  have hlast : Text.splitLast? ')' (command ++ ')' :: after) = some (command, after) :=
    Text.splitLast?_eq_some_iff.mpr ⟨rfl, hclose⟩
  simp only [statRow, singleLine_eq_ok_iff.mpr hline, bind, Except.bind, hfirst, hlast]
  rfl

theorem statRow_eq_ok_iff : statRow content = .ok row ↔ ∃ before command after,
    Text.lines content = [before ++ '(' :: command ++ ')' :: after] ∧ '(' ∉ before ∧ ')' ∉ after ∧
      (Text.tokens after).length + 2 = statColumns ∧ row = tokenRow (Text.trim before :: command :: Text.tokens after) := by
  constructor
  · intro h
    obtain ⟨line, hline, h⟩ := bind_eq_ok.mp h
    split at h
    · rename_i before afterOpen hfirst
      split at h
      · rename_i command after hlast
        obtain ⟨rfl, hclose⟩ := Text.splitLast?_eq_some_iff.mp hlast
        obtain ⟨rfl, hopen⟩ := Text.splitOnce?_eq_some_iff.mp hfirst
        have honly : Text.lines content = [before ++ '(' :: command ++ ')' :: after] := by
          simpa using singleLine_eq_ok_iff.mp hline
        dsimp only at h
        split at h
        · rename_i hlength
          cases h
          exact ⟨before, command, after, honly, hopen, hclose, hlength, rfl⟩
        · cases h
      · cases h
    · cases h
  · intro h
    obtain ⟨before, command, after, hline, hopen, hclose, hlength, rfl⟩ := h
    rw [statRow_of_line hline hopen hclose, if_pos hlength]

end ProcessFile

/-! ## Writing -/

/-- What the `stat` line of a process tells of it. -/
structure ProcessStat where
  pid : Text
  command : Text
  tokens : List Text
  deriving DecidableEq, Repr

namespace ProcessStat

/-- The id is a numeral, the name is on one line, and the tokens are tokens on a line and have no `)`. -/
structure Plain (stat : ProcessStat) : Prop where
  pid : stat.pid ≠ [] ∧ Decimal.allDigits stat.pid = true
  command : '\n' ∉ stat.command
  tokens : ∀ t ∈ stat.tokens, t ≠ [] ∧ ' ' ∉ t ∧ '\n' ∉ t ∧ ')' ∉ t

/-- The id, the name in parentheses, and what stands behind them. -/
def line (stat : ProcessStat) (tail : Text) : Text :=
  stat.pid ++ [' '] ++ '(' :: stat.command ++ ')' :: tail

/-- The line with runs of spaces around the tokens, and empty lines in front of it and behind. -/
def Written (stat : ProcessStat) (content : Text) : Prop :=
  ∃ tail, Text.Spread ' ' stat.tokens tail ∧ Text.Spread '\n' [stat.line tail] content

/-- The line with one space before each token. -/
def plainLine (stat : ProcessStat) : Text := stat.line (' ' :: Text.joined [' '] stat.tokens)

/-- The id, the name, and then the tokens. -/
def row (stat : ProcessStat) : Row := .token stat.pid :: .token stat.command :: stat.tokens.map .token

variable {stat : ProcessStat} {content : Text}

theorem Plain.not_mem_pid (h : stat.Plain) {c : Char} (hc : c.isDigit = false) : c ∉ stat.pid := by
  intro hm
  have hdigit : c.isDigit = true := List.all_eq_true.mp h.pid.2 c hm
  rw [hc] at hdigit
  cases hdigit

theorem Plain.trim_pid (h : stat.Plain) : Text.trim (stat.pid ++ [' ']) = stat.pid := by
  rw [Text.trim_append_blank Text.isBlank_space, Text.trim_of_solid]
  intro c hc
  exact Text.isBlank_of_isDigit (List.all_eq_true.mp h.pid.2 c hc)

theorem Plain.written_plainLine (h : stat.Plain) : stat.Written stat.plainLine := by
  have htail : Text.Spread ' ' stat.tokens (' ' :: Text.joined [' '] stat.tokens) :=
    .gap (Text.spread_joined fun t ht => ⟨(h.tokens t ht).1, (h.tokens t ht).2.1⟩)
  have hfeed : '\n' ∉ ' ' :: Text.joined [' '] stat.tokens :=
    Text.not_mem_of_spread htail (by decide) fun t ht => (h.tokens t ht).2.2.1
  have hpid : '\n' ∉ stat.pid := h.not_mem_pid rfl
  have hcommand : '\n' ∉ stat.command := h.command
  refine ⟨_, htail, .last ?_ ?_⟩
  · simp [line]
  · simpa [line, hpid, hcommand] using hfeed

/-- What is written for a process is cut behind its id and behind its name. -/
theorem Plain.statRow_of_written (h : stat.Plain) (hw : stat.Written content) : ProcessFile.statRow content =
    if stat.tokens.length + 2 = ProcessFile.statColumns then .ok stat.row
    else .error (.tokenCount 1 (.exactly ProcessFile.statColumns) (stat.tokens.length + 2)) := by
  obtain ⟨tail, htail, hcontent⟩ := hw
  have hopen : '(' ∉ stat.pid ++ [' '] := by simp [h.not_mem_pid]
  have hclose : ')' ∉ tail := Text.not_mem_of_spread htail (by decide) fun t ht => (h.tokens t ht).2.2.2
  have htokens : Text.tokens tail = stat.tokens := Text.fields_of_spread htail
  rw [ProcessFile.statRow_of_line (Text.fields_of_spread hcontent) hopen hclose, h.trim_pid, htokens]
  rfl

end ProcessStat

/-- Every process with a numeral for an id and a name on one line can be written, and however it is, its row is its id, its
    name and its tokens when these are 50; otherwise their number is reported. Whatever the content
    is, a row that is read is 52 tokens, and the second is what stands between the first opening and the
    last closing parenthesis of the only line. -/
theorem stat_round_trip :
    (∀ stat : ProcessStat, stat.Plain → ∃ content, stat.Written content) ∧
    (∀ stat : ProcessStat, stat.Plain → ∀ content, stat.Written content →
      (stat.tokens.length = 50 → ProcessFile.statRow content = .ok stat.row) ∧
      (stat.tokens.length ≠ 50 → ProcessFile.statRow content =
        .error (.tokenCount 1 (.exactly 52) (stat.tokens.length + 2)))) ∧
    ∀ content row, ProcessFile.statRow content = .ok row → ∃ before command after,
      Text.lines content = [before ++ '(' :: command ++ ')' :: after] ∧ '(' ∉ before ∧ ')' ∉ after ∧
        row.length = 52 ∧ (∀ cell ∈ row, ∃ t, cell = .token t) ∧ row[1]? = some (.token command) := by
  refine ⟨fun stat h => ⟨_, h.written_plainLine⟩, ?_, ?_⟩
  · intro stat h content hw
    rw [h.statRow_of_written hw]
    constructor
    · intro hlength
      rw [if_pos (by rw [hlength]; rfl)]
    · intro hlength
      rw [if_neg (by simpa [ProcessFile.statColumns] using hlength)]
      rfl
  · intro content row h
    obtain ⟨before, command, after, hline, hopen, hclose, hlength, rfl⟩ := ProcessFile.statRow_eq_ok_iff.mp h
    refine ⟨before, command, after, hline, hopen, hclose, ?_, ?_, rfl⟩
    · simpa [tokenRow, ProcessFile.statColumns] using hlength
    · intro cell hcell
      obtain ⟨t, -, rfl⟩ := List.mem_map.mp hcell
      exact ⟨t, rfl⟩

/-- The name closes its parenthesis and goes on like the rest of a line, up to another name. -/
def impostor : ProcessStat :=
  ⟨"7".toList, "sh) R 1 2 (sh".toList, "S".toList :: List.replicate 49 "0".toList⟩

theorem impostor_read :
    ProcessFile.statRow impostor.plainLine = .ok impostor.row ∧
    ProcessFile.statRow { impostor with tokens := ["S".toList] }.plainLine = .error (.tokenCount 1 (.exactly 52) 3) := by
  obtain ⟨-, written, -⟩ := stat_round_trip
  have hplain : impostor.Plain := ⟨by decide, by decide, by decide⟩
  have hshort : ProcessStat.Plain { impostor with tokens := ["S".toList] } := ⟨by decide, by decide, by decide⟩
  exact ⟨(written _ hplain _ hplain.written_plainLine).1 rfl, (written _ hshort _ hshort.written_plainLine).2 (by decide)⟩

end HostTables.Format
