/-
  HostTables.Proofs.Format.InterfaceTable — the interfaces of net/dev are read back as they were written.

  Behind two header lines every line has the name of an interface, a colon and the counters, with blanks in
  front of the name and spaces between the counters; there may be none behind the colon
  (`Interface.OnLine`). Which interface a line tells of is settled by the first colon and by what is
  left when the blanks at its ends are dropped (`row_of_onLine`), and every line with a colon tells of one
  (`exists_onLine`). So a line has a complete interface or one of two faults (`complete_or_fault`).

  `interface_table_round_trip`: what is written is read back, one row for each interface, and a file fails with
  the fault of its first line behind the headers that has one, under the number which that line has
  among all lines.
-/
import HostTables.Format
import HostTables.Proofs.Outcome
import HostTables.Proofs.Text.Words

namespace HostTables.Format

/-- A network interface and its counters. -/
structure Interface where
  name : Text
  counters : List Text
  deriving DecidableEq, Repr

namespace Interface

/-! ## How a file is written -/

/-- The name has no colon and no blanks around it, the counters are tokens on a line, and no blank
    stands at the very end. -/
structure Plain (i : Interface) : Prop where
  name : ':' ∉ i.name ∧ '\n' ∉ i.name ∧ i.name.Tight
  counters : ∀ counter ∈ i.counters, counter ≠ [] ∧ ' ' ∉ counter ∧ '\n' ∉ counter
  last : ∀ counter ∈ i.counters.getLast?, counter.Ended

/-- A plain interface with all its counters. -/
structure Complete (i : Interface) : Prop extends Plain i where
  count : i.counters.length = 16

/-- A line that tells of the interface: blanks anywhere around the name and behind the last counter, runs of
    spaces between the counters, and any number of spaces behind the colon. -/
def OnLine (i : Interface) (line : Text) : Prop :=
  ∃ front data back, line = front ++ ':' :: (data ++ back) ∧ Text.Padded i.name front ∧
    Text.Spread ' ' i.counters data ∧ ∀ c ∈ back, Text.isBlank c = true

/-- Two header lines and the lines of the interfaces in order, with empty lines anywhere. -/
def Written (first second : Text) (interfaces : List Interface) (content : Text) : Prop :=
  ∃ lines, List.Forall₂ OnLine interfaces lines ∧ Text.Spread '\n' (first :: second :: lines) content

/-- The line with so many spaces in front of the name and behind the colon. -/
def line (i : Interface) (indent gap : Nat) : Text :=
  List.replicate indent ' ' ++ i.name ++ ':' :: (List.replicate gap ' ' ++ Text.joined [' '] i.counters)

/-- The name first, then the counters. -/
def row (i : Interface) : Row := .token i.name :: i.counters.map .token

/-- Why line `n` cannot be read: there is no colon on it, or the interface that it tells of has another number
    of counters. -/
inductive Fault (n : Nat) (line : Text) : ParseError → Prop
  | noColon : ':' ∉ line → Fault n line (.missingDelimiter n ':')
  | count {i : Interface} : i.Plain → i.OnLine line → i.counters.length ≠ 16 →
      Fault n line (.tokenCount n (.exactly 17) (i.counters.length + 1))

variable {i : Interface} {line : Text}

theorem onLine_line (h : i.Plain) (indent gap : Nat) : i.OnLine (i.line indent gap) := by
  refine ⟨List.replicate indent ' ' ++ i.name, List.replicate gap ' ' ++ Text.joined [' '] i.counters, [], ?_, ?_, ?_,
    nofun⟩
  · rw [List.append_nil, Interface.line]
  · refine ⟨List.replicate indent ' ', [], by rw [List.append_nil], ?_⟩
    intro c hc
    rw [List.append_nil] at hc
    rw [List.eq_of_mem_replicate hc]
    exact Text.isBlank_space
  · exact Text.spread_replicate gap (Text.spread_joined fun p hp => ⟨(h.counters p hp).1, (h.counters p hp).2.1⟩)

theorem newline_not_mem_line (h : i.Plain) (indent gap : Nat) : '\n' ∉ i.line indent gap := by
  have hcounters : '\n' ∉ Text.joined [' '] i.counters :=
    Text.not_mem_joined (by decide) fun p hp => (h.counters p hp).2.2
  simp [Interface.line, h.name.2.1, hcounters, List.mem_replicate]

/-! ## Lines -/

/-- Trimming a line drops the blanks in front of the name and behind the last counter. -/
theorem row_of_onLine (h : i.Plain) (hline : i.OnLine line) (n : Nat) :
    NetDev.row n line = if i.counters.length = 16 then .ok i.row
      else .error (.tokenCount n (.exactly 17) (i.counters.length + 1)) := by
  obtain ⟨front, data, back, rfl, hfront, hdata, hback⟩ := hline
  have hname : Text.trim front = i.name := Text.trim_eq_iff_tight.mpr ⟨h.name.2.2, hfront⟩
  have hcolon : ':' ∉ front := fun hm => h.name.1 ((hfront.mem_iff rfl).mp hm)
  have hsplit : Text.splitOnce? ':' (Text.trim (front ++ ':' :: (data ++ back))) =
      some (front.dropWhile Text.isBlank, data.rdropWhile Text.isBlank) := by
    rw [Text.trim_append_cons rfl, Text.rdropWhile_append_blanks hback, Text.splitOnce?_eq_some_iff]
    exact ⟨rfl, fun hm => hcolon ((List.dropWhile_sublist _).subset hm)⟩
  have htokens : Text.tokens (data.rdropWhile Text.isBlank) = i.counters :=
    Text.fields_rdropWhile_of_spread Text.isBlank_space hdata h.last
  rw [NetDev.row, hsplit]
  simp only [htokens, Text.trim_dropWhile, hname]
  rfl

theorem row_of_no_colon (h : ':' ∉ line) (n : Nat) : NetDev.row n line = .error (.missingDelimiter n ':') := by
  have hsplit : Text.splitOnce? ':' (Text.trim line) = none :=
    Text.splitOnce?_of_not_mem fun hm => h (Text.trim_subset line hm)
  rw [NetDev.row, hsplit]

/-- Every line with a colon tells of an interface. -/
theorem exists_onLine (hcolon : ':' ∈ line) (hline : '\n' ∉ line) : ∃ i : Interface, i.Plain ∧ i.OnLine line := by
  obtain ⟨front, rest, rfl, hfront⟩ := List.eq_append_cons_of_mem hcolon
  obtain ⟨htight, hpadded⟩ := Text.trim_eq_iff_tight.mp (rfl : Text.trim front = _)
  have hdata : Text.Spread ' ' (Text.tokens (rest.rdropWhile Text.isBlank)) (rest.rdropWhile Text.isBlank) :=
    Text.spread_fields _
  have hparts : rest.rdropWhile Text.isBlank ++ rest.rtakeWhile Text.isBlank = rest :=
    List.rdropWhile_append_rtakeWhile ..
  have hnewline : '\n' ∉ front ∧ '\n' ∉ rest := by simpa using hline
  refine ⟨⟨Text.trim front, Text.tokens (rest.rdropWhile Text.isBlank)⟩, ⟨⟨?_, ?_, htight⟩, ?_, ?_⟩, ?_⟩
  · exact fun hm => hfront (Text.trim_subset front hm)
  · exact fun hm => hnewline.1 (Text.trim_subset front hm)
  · intro counter hcounter
    obtain ⟨hne, hspace, hpart⟩ := Text.piece_of_spread hdata counter hcounter
    exact ⟨hne, hspace, fun hm => hnewline.2 ((List.rdropWhile_prefix _ _).subset (hpart hm))⟩
  · exact Text.ended_of_spread Text.isBlank_space hdata (Text.ended_rdropWhile rest)
  · refine ⟨front, _, rest.rtakeWhile Text.isBlank, by rw [hparts], hpadded, hdata, ?_⟩
    exact fun _ hc => List.mem_rtakeWhile_imp hc

theorem row_of_complete (h : i.Complete) (hline : i.OnLine line) (n : Nat) : NetDev.row n line = .ok i.row := by
  rw [row_of_onLine h.toPlain hline, if_pos h.count]

theorem row_of_fault {n : Nat} {e : ParseError} (h : Fault n line e) : NetDev.row n line = .error e := by
  cases h with
  | noColon hcolon => exact row_of_no_colon hcolon n
  | count hplain honline hcount => rw [row_of_onLine hplain honline, if_neg hcount]

theorem complete_or_fault (hline : '\n' ∉ line) (n : Nat) :
    (∃ i : Interface, i.Complete ∧ i.OnLine line) ∨ ∃ e, Fault n line e := by
  by_cases hcolon : ':' ∈ line
  · obtain ⟨i, hplain, honline⟩ := exists_onLine hcolon hline
    by_cases hcount : i.counters.length = 16
    · exact Or.inl ⟨i, ⟨hplain, hcount⟩, honline⟩
    · exact Or.inr ⟨_, .count hplain honline hcount⟩
  · exact Or.inr ⟨_, .noColon hcolon⟩

theorem row_eq_error_iff (hline : '\n' ∉ line) {n : Nat} {e : ParseError} :
    NetDev.row n line = .error e ↔ Fault n line e := by
  refine ⟨fun h => ?_, row_of_fault⟩
  rcases complete_or_fault hline n with ⟨i, hcomplete, honline⟩ | ⟨other, hfault⟩
  · rw [row_of_complete hcomplete honline] at h
    cases h
  · rw [row_of_fault hfault] at h
    cases h
    exact hfault

theorem exists_row_iff (hline : '\n' ∉ line) {n : Nat} :
    (∃ cells, NetDev.row n line = .ok cells) ↔ ∃ i : Interface, i.Complete ∧ i.OnLine line := by
  constructor
  · rintro ⟨cells, h⟩
    rcases complete_or_fault hline n with hread | ⟨e, hfault⟩
    · exact hread
    · rw [row_of_fault hfault] at h
      cases h
  · rintro ⟨i, hcomplete, honline⟩
    exact ⟨i.row, row_of_complete hcomplete honline n⟩

/-! ## Files -/

variable {content : Text}

theorem rows_of_written {first second : Text} {interfaces : List Interface} (h : ∀ i ∈ interfaces, i.Complete)
    (hcontent : Written first second interfaces content) :
    (Format.kernel .netDev).rows content = .ok (interfaces.map row) := by
  obtain ⟨lines, honline, hspread⟩ := hcontent
  show eachNumbered NetDev.row 3 ((Text.lines content).drop 2) = .ok (interfaces.map row)
  rw [Text.lines, Text.fields_of_spread hspread]
  refine eachNumbered_eq_ok ?_
  rw [List.forall₂_map_right_iff]
  refine ((List.forall₂_and_left _ _).mpr ⟨h, honline⟩).flip.imp fun line i hi n => ?_
  exact row_of_complete hi.1 hi.2 n

theorem rows_eq_error_iff {e : ParseError} : (Format.kernel .netDev).rows content = .error e ↔
    ∃ k line, (Text.lines content)[k]? = some line ∧ 2 ≤ k ∧ Fault (k + 1) line e ∧
      ∀ j, 2 ≤ j → j < k → ∀ earlier, (Text.lines content)[j]? = some earlier →
        ∃ i : Interface, i.Complete ∧ i.OnLine earlier := by
  have hnewline : ∀ k line, (Text.lines content)[k]? = some line → '\n' ∉ line := fun _ _ hline =>
    Text.not_mem_of_mem_fields (List.mem_of_getElem? hline)
  show eachNumbered NetDev.row (1 + 2) ((Text.lines content).drop 2) = .error e ↔ _
  rw [eachNumbered_drop_eq_error_iff]
  refine exists₂_congr fun k line => and_congr_right fun hline => and_congr_right' (and_congr ?_ ?_)
  · rw [row_eq_error_iff (hnewline k line hline), Nat.add_comm]
  · exact forall₅_congr fun j _ _ earlier hearlier => exists_row_iff (hnewline j earlier hearlier)

/-- Every plain interface can be written, with or without spaces behind the colon. Complete interfaces are read
    back in order. A file fails with the fault of the first line behind the headers that has one: before it are only
    lines of complete interfaces. -/
theorem interface_table_round_trip :
    (∀ i : Interface, i.Plain → ∀ indent gap, i.OnLine (i.line indent gap) ∧ '\n' ∉ i.line indent gap) ∧
    (∀ first second interfaces content, (∀ i ∈ interfaces, i.Complete) → Written first second interfaces content →
      (Format.kernel .netDev).rows content = .ok (interfaces.map row)) ∧
    (∀ content e, (Format.kernel .netDev).rows content = .error e ↔
      ∃ k line, (Text.lines content)[k]? = some line ∧ 2 ≤ k ∧ Fault (k + 1) line e ∧
        ∀ j, 2 ≤ j → j < k → ∀ earlier, (Text.lines content)[j]? = some earlier →
          ∃ i : Interface, i.Complete ∧ i.OnLine earlier) :=
  ⟨fun _ h indent gap => ⟨onLine_line h indent gap, newline_not_mem_line h indent gap⟩,
    fun _ _ _ _ h hcontent => rows_of_written h hcontent, fun _ _ => rows_eq_error_iff⟩

/-- A loopback interface. -/
def loopback : Interface where
  name := "lo".toList
  counters := Text.tokens "128 2 0 0 0 0 0 0 128 2 0 0 0 0 0 0".toList

/-- An interface with a dot and a dash in its name, and one counter less. -/
def bridge : Interface where
  name := "br-lan.5".toList
  counters := Text.tokens "9 8 7 6 5 4 3 2 1 0 9 8 7 6 5".toList

def vlan : Interface := { bridge with counters := bridge.counters ++ [['4']] }

/-- The table of the lines below two headers. -/
def table (lines : List Text) : Text := Text.joined ['\n'] ("Inter-|".toList :: " face |".toList :: lines)

/-- The counters of the first are glued to its colon. When one is missing, the second line behind the headers is
    the fourth of the file. -/
theorem glued_counters_read :
    (Format.kernel .netDev).rows (table [vlan.line 2 0, loopback.line 4 1]) = .ok [vlan.row, loopback.row] ∧
    (Format.kernel .netDev).rows (table [loopback.line 4 1, bridge.line 2 0]) =
      .error (.tokenCount 4 (.exactly 17) 16) := by
  have hloopback : loopback.Complete := ⟨⟨by decide, by decide, by decide⟩, by decide⟩
  have hvlan : vlan.Complete := ⟨⟨by decide, by decide, by decide⟩, by decide⟩
  have hbridge : bridge.Plain := ⟨by decide, by decide, by decide⟩
  obtain ⟨hwrite, hread, hfail⟩ := interface_table_round_trip
  obtain ⟨hglued, -⟩ := hwrite vlan hvlan.toPlain 2 0
  obtain ⟨hspaced, -⟩ := hwrite loopback hloopback.toPlain 4 1
  obtain ⟨hshort, -⟩ := hwrite bridge hbridge 2 0
  constructor
  · refine hread _ _ [vlan, loopback] _ ?_ ⟨[vlan.line 2 0, loopback.line 4 1], ?_, Text.spread_joined (by decide)⟩
    · simp [hvlan, hloopback]
    · exact .cons hglued (.cons hspaced .nil)
  · refine (hfail _ _).mpr ⟨3, bridge.line 2 0, by decide, by decide, .count hbridge hshort (by decide), ?_⟩
    intro j hj hless earlier hearlier
    obtain rfl : j = 2 := by omega
    obtain rfl : earlier = loopback.line 4 1 := Option.some.inj (hearlier.symm.trans (by decide))
    exact ⟨loopback, hloopback, hspaced⟩

end Interface

end HostTables.Format
