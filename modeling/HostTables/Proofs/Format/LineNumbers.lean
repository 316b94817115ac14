/-
  HostTables.Proofs.Format.LineNumbers — which line of a file the number in a report is the number of.

  In eight formats every report has a number (`Numbered`). Reading goes from line to line and stops at the first
  fault, so the lines in front of it can be read by themselves, and all that begins with them and the line at
  fault is refused with the same report (`Stops`, `stops_of_eachNumbered`, `Numbered.stops`). In the file that is the
  line at which it must be cut to tell the two apart (`Rejected`), and there is one such line (`rejected_iff`).

  Reading does not see empty lines and does not count them. `reported_number_iff`: the number in the report is
  that of the rejected line among the lines that are not empty, and its number in the file exactly when no line in
  front of it is empty. `empty_line_not_counted`: with an empty line in front it is the number of another line.
-/
import HostTables.Proofs.Format.Concatenation
import HostTables.Proofs.Format.NestedTable

namespace HostTables.Format

/-! ## Where reading stops -/

section Stops

variable {α β γ : Type} {e : ParseError} {items : List α}

/-- The report has the number of an item that is there; what is in front of the item can be read, and all that
    begins with it ends in the report. -/
def Stops (read : List α → Except ParseError β) (items : List α) (e : ParseError) : Prop :=
  ∃ i < items.length, e.number? = some (i + 1) ∧ (∀ j ≤ i, ∃ out, read (items.take j) = .ok out) ∧
    ∀ j, i < j → read (items.take j) = .error e

/-- Items in front of the first fault can be read. -/
theorem stops_of_eachNumbered {row : Nat → α → Except ParseError β}
    (hnumber : ∀ n a e, row n a = .error e → e.number? = some n) (skipped : Nat)
    (h : eachNumbered row (1 + skipped) (items.drop skipped) = .error e) :
    Stops (fun items => eachNumbered row (1 + skipped) (items.drop skipped)) items e := by
  obtain ⟨i, a, ha, hskipped, hfault, hbefore⟩ := eachNumbered_drop_eq_error_iff.mp h
  obtain ⟨hi, -⟩ := List.getElem?_eq_some_iff.mp ha
  refine ⟨i, hi, ?_, fun j hj => ?_, fun j hj => ?_⟩
  · rw [hnumber _ _ _ hfault, Nat.add_comm]
  · cases hread : eachNumbered row (1 + skipped) ((items.take j).drop skipped) with
    | ok out => exact ⟨out, hread⟩
    | error fault =>
      obtain ⟨k, b, hb, hk, hfault, -⟩ := eachNumbered_drop_eq_error_iff.mp hread
      have hkj : k < j := Nat.lt_of_lt_of_le (List.getElem?_eq_some_iff.mp hb).1 (List.length_take_le j items)
      rw [List.getElem?_take_of_lt hkj] at hb
      obtain ⟨out, hout⟩ := hbefore k hk (by omega) b hb
      rw [hfault] at hout
      cases hout
  · refine eachNumbered_drop_eq_error_iff.mpr ⟨i, a, ?_, hskipped, hfault, fun k hk hki earlier hearlier => ?_⟩
    · rw [List.getElem?_take_of_lt hj, ha]
    · rw [List.getElem?_take_of_lt (by omega)] at hearlier
      exact hbefore k hk hki earlier hearlier

theorem Stops.map {read : List α → Except ParseError β} (h : Stops read items e) (f : β → γ) :
    Stops (fun items => f <$> read items) items e := by
  obtain ⟨i, hi, hnumber, hfront, hbehind⟩ := h
  refine ⟨i, hi, hnumber, fun j hj => ?_, fun j hj => map_eq_error.mpr (hbehind j hj)⟩
  obtain ⟨out, hout⟩ := hfront j hj
  exact ⟨f out, map_eq_ok.mpr ⟨out, hout, rfl⟩⟩

theorem Stops.congr {read read' : List α → Except ParseError β} (h : Stops read items e)
    (hsame : ∀ j, read' (items.take j) = read (items.take j)) : Stops read' items e := by
  simpa only [Stops, hsame] using h

end Stops

/-! ## Formats -/

/-- The formats whose reports have a number. -/
inductive Numbered : Format → Prop
  | lineWise {format : Format} : format.LineWise → Numbered format
  | nestedKeyed : Numbered .nestedKeyed
  | netDev : Numbered (.kernel .netDev)

theorem NestedLine.LineFault.number {width n : Nat} {line : Text} {e : ParseError}
    (h : NestedLine.LineFault width n line e) : e.number? = some n := by
  cases h <;> rfl

theorem NetDev.row_number (n : Nat) (t : Text) (e : ParseError) (h : NetDev.row n t = .error e) :
    e.number? = some n := by
  unfold NetDev.row at h
  split at h
  · cases h
    rfl
  · dsimp only at h
    split at h
    · cases h
    · cases h
      rfl

/-- The rows are read from the lines that are not empty, up to the first fault. -/
theorem Numbered.stops {format : Format} (h : format.Numbered) :
    ∃ read : List Text → Except ParseError (List Row), (∀ content, format.rows content = read (Text.lines content)) ∧
      ∀ lines e, read lines = .error e → Stops read lines e := by
  cases h with
  | lineWise h =>
    obtain ⟨row, hrows, hfollows⟩ := h.rule
    exact ⟨eachNumbered row 1, hrows,
      fun lines e => stops_of_eachNumbered (fun n t _ => (hfollows n 0 t).number) 0⟩
  | netDev => exact ⟨_, fun _ => rfl, fun lines e => stops_of_eachNumbered NetDev.row_number 2⟩
  | nestedKeyed =>
    let width (lines : List Text) : Nat := (Text.tokens (lines.headD [])).length
    let read (width : Nat) (lines : List Text) :=
      List.flatMap NestedLine.rows <$> eachNumbered (NestedLine.ofTextWith width) 1 lines
    refine ⟨fun lines => read (width lines) lines, nestedRows_eq, fun lines e he => ?_⟩
    have hfixed : Stops (read (width lines)) lines e := by
      have hnumber : ∀ n t e, NestedLine.ofTextWith (width lines) n t = .error e → e.number? = some n :=
        fun n t e h => (NestedLine.ofTextWith_eq_error_iff.mp h).number
      exact (stops_of_eachNumbered hnumber 0 (map_eq_error.mp he)).map (List.flatMap NestedLine.rows)
    -- The lines in front of a fault have the same first line, or there are none.
    refine hfixed.congr fun j => ?_
    cases lines with
    | nil => rw [List.take_nil]
    | cons first rest => cases j <;> rfl

/-! ## Lines of a file -/

/-- The lines with a line feed behind each. -/
def unlines (lines : List Text) : Text := lines.flatMap (· ++ ['\n'])

/-- The lines that are read. -/
def nonEmpty (lines : List Text) : List Text := lines.filter fun line => !line.isEmpty

variable {format : Format} {content line : Text} {lead : List Text} {e : ParseError}

theorem lines_of_line (h : '\n' ∉ line) : Text.lines line = nonEmpty [line] := by
  rw [Text.lines, Text.fields, List.splitOn_eq_singleton h, nonEmpty]

theorem lines_unlines_append (h : ∀ line ∈ lead, '\n' ∉ line) (t : Text) :
    Text.lines (unlines lead ++ t) = nonEmpty lead ++ Text.lines t := by
  induction lead with
  | nil => rfl
  | cons first rest ih =>
    obtain ⟨hfirst, hrest⟩ := List.forall_mem_cons.mp h
    have hcut : unlines (first :: rest) ++ t = first ++ '\n' :: (unlines rest ++ t) := by simp [unlines]
    rw [hcut, Text.lines, Text.fields_append_cons, ← Text.lines, ← Text.lines, lines_of_line hfirst, ih hrest,
      ← List.append_assoc]
    simp only [nonEmpty, ← List.filter_append, List.singleton_append]

/-- Line `n` of the content is the one that is rejected with the report: what stands in front of it can be read, and
    with it there is the report. -/
inductive Rejected (format : Format) (content : Text) (e : ParseError) : Nat → Prop
  | here {lead rest : List Text} {line : Text} {rows : List Row} : content.splitOn '\n' = lead ++ line :: rest →
      format.rows (unlines lead) = .ok rows → format.rows (unlines lead ++ line) = .error e →
      Rejected format content e (lead.length + 1)

/-- Line `n` of the lines is not empty, and `i` lines in front of it are not. -/
inductive Place (lines : List Text) (i : Nat) : Nat → Prop
  | here {lead rest : List Text} {line : Text} : lines = lead ++ line :: rest → line ≠ [] →
      (nonEmpty lead).length = i → Place lines i (lead.length + 1)

variable {lines : List Text} {i n m : Nat}

theorem nonEmpty_cons_of_nil (lines : List Text) : nonEmpty ([] :: lines) = nonEmpty lines := rfl

theorem nonEmpty_cons_of_ne_nil (h : line ≠ []) (lines : List Text) :
    nonEmpty (line :: lines) = line :: nonEmpty lines :=
  List.filter_cons_of_pos (by simpa using h)

theorem nonEmpty_append (front back : List Text) : nonEmpty (front ++ back) = nonEmpty front ++ nonEmpty back :=
  List.filter_append ..

theorem Place.cons_nil (h : Place lines i n) : Place ([] :: lines) i (n + 1) := by
  cases h with
  | @here lead rest _ hlines hline hcount =>
    have hcons : Place ([] :: lines) i (([] :: lead).length + 1) := .here (congrArg ([] :: ·) hlines) hline hcount
    exact hcons

theorem Place.cons (h : Place lines i n) (hfirst : line ≠ []) : Place (line :: lines) (i + 1) (n + 1) := by
  cases h with
  | @here lead rest _ hlines hline hcount =>
    have hmore : (nonEmpty (line :: lead)).length = i + 1 := by
      rw [nonEmpty_cons_of_ne_nil hfirst, List.length_cons, hcount]
    have hcons : Place (line :: lines) (i + 1) ((line :: lead).length + 1) :=
      .here (congrArg (line :: ·) hlines) hline hmore
    exact hcons

theorem exists_place (h : i < (nonEmpty lines).length) : ∃ n, Place lines i n := by
  induction lines generalizing i with
  | nil => cases h
  | cons first rest ih =>
    by_cases hfirst : first = []
    · rw [hfirst, nonEmpty_cons_of_nil] at h
      obtain ⟨n, hplace⟩ := ih h
      exact ⟨n + 1, hfirst ▸ hplace.cons_nil⟩
    · rw [nonEmpty_cons_of_ne_nil hfirst, List.length_cons] at h
      cases i with
      | zero => exact ⟨1, .here (List.nil_append _).symm hfirst rfl⟩
      | succ i =>
        obtain ⟨n, hplace⟩ := ih (Nat.lt_of_succ_lt_succ h)
        exact ⟨n + 1, hplace.cons hfirst⟩

theorem Place.le (h : Place lines i n) (h' : Place lines i m) : n ≤ m := by
  cases h with
  | @here lead rest line hlines hline hcount =>
    cases h' with
    | @here lead' rest' line' hlines' hline' hcount' =>
      rw [hlines, List.append_eq_append_iff] at hlines'
      rcases hlines' with ⟨more, rfl, -⟩ | ⟨more, rfl, hmore⟩
      · simp
      · cases more with
        | nil => simp
        | cons first more =>
          -- The line at the second place stands in front of the first place, and is not empty.
          cases hmore
          rw [nonEmpty_append, nonEmpty_cons_of_ne_nil hline', List.length_append, List.length_cons] at hcount
          omega

theorem Place.unique (h : Place lines i n) (h' : Place lines i m) : n = m :=
  Nat.le_antisymm (h.le h') (h'.le h)

/-! ## The rejected line -/

/-- Cut in front of a line or behind it, the file has the first of its lines that are not empty. -/
theorem lines_cut {rest : List Text} (h : content.splitOn '\n' = lead ++ line :: rest) :
    Text.lines (unlines lead) = (Text.lines content).take (nonEmpty lead).length ∧
    Text.lines (unlines lead ++ line) =
      (Text.lines content).take ((nonEmpty lead).length + (nonEmpty [line]).length) := by
  have hall : Text.lines content = nonEmpty lead ++ nonEmpty [line] ++ nonEmpty rest := by
    rw [Text.lines, Text.fields, h, ← nonEmpty_append, ← nonEmpty_append, List.append_assoc]
    rfl
  have hfeed : ∀ piece ∈ lead ++ line :: rest, '\n' ∉ piece := fun piece hpiece =>
    Text.not_mem_of_mem_splitOn (h ▸ hpiece)
  obtain ⟨hlead, hline⟩ := List.forall_mem_append.mp hfeed
  have hfront : Text.lines (unlines lead ++ []) = nonEmpty lead ++ Text.lines [] := lines_unlines_append hlead []
  have hback : Text.lines (unlines lead ++ line) = nonEmpty lead ++ Text.lines line := lines_unlines_append hlead line
  rw [lines_of_line (hline line List.mem_cons_self)] at hback
  refine ⟨?_, ?_⟩
  · rw [← List.append_nil (unlines lead), hfront, hall, List.append_assoc, List.take_left]
    exact List.append_nil _
  · rw [hback, hall, ← List.length_append, List.take_left]

theorem rejected_iff_place (h : format.Numbered) (he : format.rows content = .error e) :
    ∃ i < (Text.lines content).length, e.number? = some (i + 1) ∧
      ∀ k, Rejected format content e k ↔ Place (content.splitOn '\n') i k := by
  obtain ⟨read, hrows, hstops⟩ := h.stops
  rw [hrows] at he
  obtain ⟨i, hi, hnumber, hfront, hbehind⟩ := hstops _ e he
  refine ⟨i, hi, hnumber, fun k => ⟨fun hrejected => ?_, fun hplace => ?_⟩⟩
  · cases hrejected with
    | @here lead rest line rows hcut hread hfault =>
      obtain ⟨hlead, hline⟩ := lines_cut hcut
      rw [hrows, hlead] at hread
      rw [hrows, hline] at hfault
      have hle : (nonEmpty lead).length ≤ i := by
        by_contra hlt
        rw [hbehind _ (Nat.lt_of_not_le hlt)] at hread
        cases hread
      have hlt : i < (nonEmpty lead).length + (nonEmpty [line]).length := by
        by_contra hle
        obtain ⟨out, hout⟩ := hfront _ (Nat.le_of_not_lt hle)
        rw [hout] at hfault
        cases hfault
      have hne : line ≠ [] := by
        rintro rfl
        exact absurd hlt (Nat.not_lt_of_le hle)
      rw [nonEmpty_cons_of_ne_nil hne, List.length_cons] at hlt
      exact .here hcut hne (Nat.le_antisymm hle (Nat.le_of_lt_succ hlt))
  · cases hplace with
    | @here lead rest line hcut hne hcount =>
      obtain ⟨hlead, hline⟩ := lines_cut hcut
      rw [nonEmpty_cons_of_ne_nil hne, hcount] at hline
      rw [hcount] at hlead
      obtain ⟨rows, hread⟩ := hfront i (Nat.le_refl i)
      have hbefore : format.rows (unlines lead) = .ok rows := by rw [hrows, hlead, hread]
      have hfault : format.rows (unlines lead ++ line) = .error e := by
        rw [hrows, hline]
        exact hbehind _ (Nat.lt_succ_self i)
      exact .here hcut hbefore hfault

/-- One line of the file is the rejected one. The number in the report is how many lines up to that line are not
    empty, so it is the number of the line exactly when none in front of it is empty. -/
theorem reported_number_iff (h : format.Numbered) (he : format.rows content = .error e) :
    ∃ number place, e.number? = some number ∧ (∀ k, Rejected format content e k ↔ k = place) ∧
      number = (nonEmpty ((content.splitOn '\n').take place)).length ∧
      (number = place ↔ ∀ line ∈ (content.splitOn '\n').take place, line ≠ []) := by
  obtain ⟨i, hi, hnumber, hrejected⟩ := rejected_iff_place h he
  obtain ⟨place, hplace⟩ := exists_place hi
  refine ⟨i + 1, place, hnumber, fun k => ?_, ?_⟩
  · rw [hrejected]
    exact ⟨fun hk => hk.unique hplace, fun hk => hk ▸ hplace⟩
  · cases hplace with
    | @here lead rest line hcut hne hcount =>
      have htake : (content.splitOn '\n').take (lead.length + 1) = lead ++ [line] := by
        rw [hcut, List.append_cons, List.take_left' (by simp)]
      have hlength : (nonEmpty (lead ++ [line])).length = i + 1 := by
        rw [nonEmpty_append, List.length_append, hcount, nonEmpty_cons_of_ne_nil hne]
        rfl
      have hall : (nonEmpty (lead ++ [line])).length = (lead ++ [line]).length ↔
          ∀ piece ∈ lead ++ [line], piece ≠ [] := by
        rw [nonEmpty, List.length_filter_eq_length_iff]
        simp only [Bool.not_eq_true', List.isEmpty_eq_false_iff]
      rw [htake, hlength, ← hall, hlength, List.length_append, List.length_singleton]
      exact ⟨rfl, Iff.rfl⟩

/-- Two headers, an empty line, and an interface without a colon. -/
def gappedInterfaces : Text := "Inter-|\n face |\n\nlo 1\n".toList

/-- The second line has one pair more than the first, and an empty line stands behind it. -/
def unevenCounters : Text := "8:0 r=1\n8:16 r=1 w=2\n\n".toList

/-- The third line that is read is the fourth of the file; in the other file, where no line in front is empty, the
    second is the second. -/
theorem interface_behind_gap :
    (Format.kernel .netDev).rows gappedInterfaces = .error (.missingDelimiter 3 ':') ∧
    (∀ k, Rejected (.kernel .netDev) gappedInterfaces (.missingDelimiter 3 ':') k ↔ k = 4) ∧
    Format.nestedKeyed.rows unevenCounters = .error (.unevenGroup 2 2 3) ∧
    ∀ k, Rejected .nestedKeyed unevenCounters (.unevenGroup 2 2 3) k ↔ k = 2 := by
  have hgap : (Format.kernel .netDev).rows gappedInterfaces = .error (.missingDelimiter 3 ':') := by decide
  have huneven : Format.nestedKeyed.rows unevenCounters = .error (.unevenGroup 2 2 3) := by decide
  refine ⟨hgap, ?_, huneven, ?_⟩
  · obtain ⟨_, place, -, hplace, -⟩ := reported_number_iff .netDev hgap
    have hcut : gappedInterfaces.splitOn '\n' =
        ["Inter-|".toList, " face |".toList, []] ++ "lo 1".toList :: [[]] := by decide
    have hheaders : (Format.kernel .netDev).rows (unlines ["Inter-|".toList, " face |".toList, []]) = .ok [] := by
      decide
    have hfourth : 4 = place := (hplace 4).mp (.here hcut hheaders (by decide))
    rwa [← hfourth] at hplace
  · obtain ⟨_, place, -, hplace, -⟩ := reported_number_iff .nestedKeyed huneven
    have hcut : unevenCounters.splitOn '\n' = ["8:0 r=1".toList] ++ "8:16 r=1 w=2".toList :: [[], []] := by decide
    have hfirst : Format.nestedKeyed.rows (unlines ["8:0 r=1".toList]) =
        .ok [tokenRow (["8:0", "r", "1"].map String.toList)] := by decide
    have hsecond : 2 = place := (hplace 2).mp (.here hcut hfirst (by decide))
    rwa [← hsecond] at hplace

/-- An empty line between two others: the report on the last of them has the number of the empty one, in front of
    which and with which the file can be read. -/
def gappedKeys : Text := "a 1\n\nb\n".toList

theorem empty_line_not_counted :
    Format.flatKeyed.rows gappedKeys = .error (.tokenCount 2 (.exactly 2) 1) ∧
    ¬ Rejected .flatKeyed gappedKeys (.tokenCount 2 (.exactly 2) 1) 2 ∧
    Rejected .flatKeyed gappedKeys (.tokenCount 2 (.exactly 2) 1) 3 := by
  have hfault : Format.flatKeyed.rows gappedKeys = .error (.tokenCount 2 (.exactly 2) 1) := by decide
  have hcut : gappedKeys.splitOn '\n' = ["a 1".toList, []] ++ ['b'] :: [[]] := by decide
  have hfront : Format.flatKeyed.rows (unlines ["a 1".toList, []]) = .ok [tokenRow [['a'], ['1']]] := by decide
  have hthird : Rejected .flatKeyed gappedKeys (.tokenCount 2 (.exactly 2) 1) 3 := .here hcut hfront (by decide)
  refine ⟨hfault, fun hsecond => ?_, hthird⟩
  obtain ⟨i, -, -, hplace⟩ := rejected_iff_place (.lineWise .flatKeyed) hfault
  exact absurd (((hplace 2).mp hsecond).unique ((hplace 3).mp hthird)) (by decide)

end HostTables.Format
