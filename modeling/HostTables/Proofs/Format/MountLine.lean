/-
  HostTables.Proofs.Format.MountLine — which lines are mount lines, and what is wrong with all others.

  Line feeds at the end of a text are no part of the line (`WithoutFeeds`). A line is cut at its first ` - `, of
  which it may have several (`FirstCut`), and both sides into words. What comes of it is told by the number
  of words (`Answers`): six in front and three behind make a mount line, whose optional fields are all the
  words in front from the seventh on; otherwise the first field for which there is no word is missing, those
  in front before those behind. A line of a mount table needs ten tokens before any of this is looked
  at, and a colon in its device afterwards (`RowFault`).

  The cut is found by a recursion that knows no positions, so it is shown to be the first one by
  induction on the line (`splitSeparator?_eq_some_iff`); the answer follows by cases on the words
  (`ofText_answers`). `mount_lines_read_exactly` has both: for every text what it is read as, and for
  every table whether it is read and the fault of the first line that is not; and it says what words are.
-/
import HostTables.Proofs.Format.MountTable
import HostTables.Proofs.Text.Runs
import Mathlib.Data.List.DropRight

namespace HostTables

namespace MountLine

/-! ## Lines -/

/-- The line is the text without the line feeds at its end. -/
structure WithoutFeeds (t line : Text) : Prop where
  parts : ∃ count, t = line ++ List.replicate count '\n'
  last : line.getLast? ≠ some '\n'

theorem withoutFeeds_dropLineFeeds (t : Text) : WithoutFeeds t (dropLineFeeds t) := by
  have hdrop : dropLineFeeds t = t.rdropWhile (· == '\n') := rfl
  constructor
  · refine ⟨(t.rtakeWhile (· == '\n')).length, ?_⟩
    have hfeeds : t.rtakeWhile (· == '\n') = List.replicate (t.rtakeWhile (· == '\n')).length '\n' :=
      List.eq_replicate_of_mem fun c hc => by simpa using List.mem_rtakeWhile_imp hc
    rw [← hfeeds, hdrop, List.rdropWhile_append_rtakeWhile]
  · intro hlast
    have hne : t.rdropWhile (· == '\n') ≠ [] := by
      intro hnil
      rw [hdrop, hnil] at hlast
      cases hlast
    have hkept := List.rdropWhile_last_not _ t hne
    rw [hdrop, List.getLast?_eq_some_getLast hne, Option.some.injEq] at hlast
    simp [hlast] at hkept

/-! ## The first separator -/

def separator : Text := [' ', '-', ' ']

/-- The texts before and behind the first separator of the line. -/
structure FirstCut (line before after : Text) : Prop where
  parts : line = before ++ separator ++ after
  first : ∀ b a, line = b ++ separator ++ a → before.length ≤ b.length

/-- A character in front goes before the cut, unless a separator begins with it. -/
theorem firstCut_cons_iff {c : Char} {rest : Text} (h : ∀ a, c :: rest ≠ separator ++ a) {before after : Text} :
    FirstCut (c :: rest) before after ↔ ∃ b, before = c :: b ∧ FirstCut rest b after := by
  constructor
  · rintro ⟨hparts, hfirst⟩
    cases before with
    | nil => exact absurd hparts (h after)
    | cons d b =>
      simp only [List.cons_append, List.cons.injEq] at hparts
      obtain ⟨rfl, rfl⟩ := hparts
      refine ⟨b, rfl, rfl, fun b' a' hcut => ?_⟩
      have hle := hfirst (c :: b') a' (by rw [hcut]; rfl)
      simpa using hle
  · rintro ⟨b, rfl, rfl, hfirst⟩
    refine ⟨rfl, fun b' a' hcut => ?_⟩
    cases b' with
    | nil => exact absurd hcut (h a')
    | cons d b' =>
      simp only [List.cons_append, List.cons.injEq] at hcut
      have hle := hfirst b' a' hcut.2
      simpa using hle

theorem splitSeparator?_eq_some_iff {line : Text} : ∀ {before after : Text},
    splitSeparator? line = some (before, after) ↔ FirstCut line before after := by
  fun_induction splitSeparator? line with
  | case1 =>
    intro before after
    constructor
    · nofun
    · rintro ⟨hparts, -⟩
      simp [separator] at hparts
  | case2 rest =>
    intro before after
    constructor
    · intro h
      cases h
      exact ⟨rfl, fun b a _ => Nat.zero_le _⟩
    · rintro ⟨hparts, hfirst⟩
      obtain rfl : before = [] := List.eq_nil_of_length_eq_zero (Nat.le_zero.mp (hfirst [] rest rfl))
      cases hparts
      rfl
  | case3 c rest hother ih =>
    intro before after
    have hstart : ∀ a, c :: rest ≠ separator ++ a := by
      intro a heq
      cases heq
      exact hother a rfl rfl
    rw [firstCut_cons_iff hstart]
    simp only [Option.map_eq_some_iff, Prod.exists, Prod.mk.injEq, ih]
    constructor
    · rintro ⟨b, a, hcut, rfl, rfl⟩
      exact ⟨b, rfl, hcut⟩
    · rintro ⟨b, rfl, hcut⟩
      exact ⟨b, after, hcut, rfl, rfl⟩

theorem splitSeparator?_eq_none_iff {line : Text} : splitSeparator? line = none ↔ ¬ separator <:+: line := by
  fun_induction splitSeparator? line with
  | case1 => simp [separator]
  | case2 rest =>
    have hinside : separator <:+: ' ' :: '-' :: ' ' :: rest := ⟨[], rest, rfl⟩
    simp [hinside]
  | case3 c rest hother ih =>
    have hstart : ¬ separator <+: c :: rest := by
      rintro ⟨a, heq⟩
      cases heq
      exact hother a rfl rfl
    simp [List.infix_cons_iff, hstart, ih]

/-! ## Words on both sides -/

/-- The fields that the words in front of the separator begin with. -/
def leading (mount : MountLine) : List Text :=
  [mount.mountId, mount.parentId, mount.device, mount.root, mount.mountPoint, mount.mountOptions]

def trailing (mount : MountLine) : List Text := [mount.fsType, mount.source, mount.superOptions]

/-- What a line is read as. A field is missing when there are just as many words as fields before it. -/
inductive Answers (line : Text) : Except MountLineError MountLine → Prop
  | mount {before after : Text} {mount : MountLine} {more : List Text} : FirstCut line before after →
      Text.words before = mount.leading ++ mount.optional → Text.words after = mount.trailing ++ more →
      Answers line (.ok mount)
  | noSeparator : ¬ separator <:+: line → Answers line (.error (.missingSeparator line))
  | leading {before after : Text} {field : MountField} : FirstCut line before after →
      MountField.leading[(Text.words before).length]? = some field → Answers line (.error (.missingLeading field line))
  | trailing {before after : Text} {field : MountField} : FirstCut line before after →
      6 ≤ (Text.words before).length → MountField.trailing[(Text.words after).length]? = some field →
      Answers line (.error (.missingTrailing field line))

theorem firstMissing?_eq (fields : List MountField) (words : List Text) :
    firstMissing? fields words = fields[words.length]? := List.head?_drop

theorem exists_leading {words : List Text} (h : 6 ≤ words.length) :
    ∃ mountId parentId device root mountPoint mountOptions optional,
      words = mountId :: parentId :: device :: root :: mountPoint :: mountOptions :: optional := by
  match words, h with
  | mountId :: parentId :: device :: root :: mountPoint :: mountOptions :: optional, _ =>
    exact ⟨mountId, parentId, device, root, mountPoint, mountOptions, optional, rfl⟩

theorem exists_trailing {words : List Text} (h : 3 ≤ words.length) :
    ∃ fsType source superOptions more, words = fsType :: source :: superOptions :: more := by
  match words, h with
  | fsType :: source :: superOptions :: more, _ => exact ⟨fsType, source, superOptions, more, rfl⟩

theorem ofText_answers (t : Text) : Answers (dropLineFeeds t) (ofText t) := by
  unfold ofText
  dsimp only
  cases hsplit : splitSeparator? (dropLineFeeds t) with
  | none => exact .noSeparator (splitSeparator?_eq_none_iff.mp hsplit)
  | some parts =>
    obtain ⟨before, after⟩ := parts
    have hcut : FirstCut (dropLineFeeds t) before after := splitSeparator?_eq_some_iff.mp hsplit
    dsimp only
    split
    · rename_i hbefore hafter
      exact .mount hcut hbefore hafter
    · rename_i hshort
      rw [firstMissing?_eq, firstMissing?_eq]
      split
      · rename_i field hfield
        exact .leading hcut hfield
      · rename_i hcomplete
        have hbefore : 6 ≤ (Text.words before).length := List.getElem?_eq_none_iff.mp hcomplete
        have hafter : (Text.words after).length < MountField.trailing.length := by
          by_contra hlong
          obtain ⟨_, _, _, _, _, _, _, hleading⟩ := exists_leading hbefore
          obtain ⟨_, _, _, _, htrailing⟩ := exists_trailing (Nat.le_of_not_lt hlong)
          exact hshort _ _ _ _ _ _ _ _ _ _ _ hleading htrailing
        rw [List.getElem?_eq_getElem hafter, Option.getD_some]
        exact .trailing hcut hbefore (List.getElem?_eq_getElem hafter)

variable {t : Text} {answer : Except MountLineError MountLine}

theorem ofText_of_answers (h : Answers (dropLineFeeds t) answer) : ofText t = answer := by
  generalize hline : dropLineFeeds t = line at h
  cases h with
  | mount hcut hleading htrailing =>
    simp only [ofText, hline, splitSeparator?_eq_some_iff.mpr hcut, hleading, htrailing]
    rfl
  | noSeparator hnone => simp only [ofText, hline, splitSeparator?_eq_none_iff.mpr hnone]
  | @leading before after field hcut hfield =>
    obtain ⟨hshort, -⟩ := List.getElem?_eq_some_iff.mp hfield
    simp only [ofText, hline, splitSeparator?_eq_some_iff.mpr hcut]
    split
    · rename_i hbefore _
      rw [hbefore] at hshort
      simp only [MountField.leading, List.length_cons, List.length_nil] at hshort
      omega
    · rw [firstMissing?_eq, hfield]
  | @trailing before after field hcut hbefore hfield =>
    obtain ⟨hshort, -⟩ := List.getElem?_eq_some_iff.mp hfield
    have hcomplete : MountField.leading[(Text.words before).length]? = none := List.getElem?_eq_none_iff.mpr hbefore
    simp only [ofText, hline, splitSeparator?_eq_some_iff.mpr hcut]
    split
    · rename_i hafter
      rw [hafter] at hshort
      simp only [MountField.trailing, List.length_cons, List.length_nil] at hshort
      omega
    · simp only [firstMissing?_eq, hcomplete, hfield, Option.getD_some]

theorem ofText_eq_iff : ofText t = answer ↔ Answers (dropLineFeeds t) answer := by
  constructor
  · rintro rfl
    exact ofText_answers t
  · exact ofText_of_answers

theorem exists_mount_iff : (∃ mount, ofText t = .ok mount) ↔ ∃ before after, FirstCut (dropLineFeeds t) before after ∧
    6 ≤ (Text.words before).length ∧ 3 ≤ (Text.words after).length := by
  constructor
  · rintro ⟨mount, hmount⟩
    cases ofText_eq_iff.mp hmount with
    | @mount before after _ more hcut hbefore hafter =>
      refine ⟨before, after, hcut, ?_, ?_⟩
      · simp [hbefore, MountLine.leading]
      · simp [hafter, MountLine.trailing]
  · rintro ⟨before, after, hcut, hbefore, hafter⟩
    obtain ⟨mountId, parentId, device, root, mountPoint, mountOptions, optional, hleading⟩ := exists_leading hbefore
    obtain ⟨fsType, source, superOptions, more, htrailing⟩ := exists_trailing hafter
    exact ⟨⟨mountId, parentId, device, root, mountPoint, mountOptions, optional, fsType, source, superOptions⟩,
      ofText_eq_iff.mpr (.mount hcut hleading htrailing)⟩

theorem FirstCut.unique {line before after before' after' : Text} (h : FirstCut line before after)
    (h' : FirstCut line before' after') : before = before' ∧ after = after' := by
  rw [← splitSeparator?_eq_some_iff] at h h'
  rw [h, Option.some.injEq, Prod.mk.injEq] at h'
  exact h'

/-- The device is the third word. -/
theorem device_of_answers {line before after : Text} {mount : MountLine} (h : Answers line (.ok mount))
    (hcut : FirstCut line before after) : (Text.words before)[2]? = some mount.device := by
  cases h with
  | mount hcut' hbefore _ =>
    obtain ⟨rfl, -⟩ := hcut.unique hcut'
    rw [hbefore]
    rfl

end MountLine

/-! ## Tables -/

namespace Format.Mountinfo

/-- A line of a mount table that is a row: it has ten tokens, is a mount line, and the third of its words has
    a colon. -/
def TableLine (line : Text) : Prop :=
  10 ≤ (Text.tokens line).length ∧ ∃ before after, MountLine.FirstCut line before after ∧
    6 ≤ (Text.words before).length ∧ 3 ≤ (Text.words after).length ∧
    ∃ device, (Text.words before)[2]? = some device ∧ ':' ∈ device

/-- What is wrong with line `n` of a mount table, the first of three checks that fails. -/
inductive RowFault (n : Nat) (line : Text) : ParseError → Prop
  | tokens : (Text.tokens line).length < 10 → RowFault n line (.tokenCount n (.atLeast 10) (Text.tokens line).length)
  | line {cause : MountLineError} : 10 ≤ (Text.tokens line).length → MountLine.Answers line (.error cause) →
      RowFault n line (.mountLine n cause)
  | device {mount : MountLine} : 10 ≤ (Text.tokens line).length → MountLine.Answers line (.ok mount) →
      ':' ∉ mount.device → RowFault n line (.missingDelimiter n ':')

variable {line : Text} {n : Nat} {e : ParseError} {content : Text}

/-- A line without line feeds is read as it is. -/
theorem ofText_iff_of_line (h : '\n' ∉ line) {answer : Except MountLineError MountLine} :
    MountLine.ofText line = answer ↔ MountLine.Answers line answer := by
  rw [MountLine.ofText_eq_iff, MountLine.dropLineFeeds_of_not_mem h]

theorem row_eq_error_iff (h : '\n' ∉ line) : row n line = .error e ↔ RowFault n line e := by
  unfold row
  dsimp only
  constructor
  · intro hrow
    split at hrow
    · rename_i hcount
      cases hrow
      exact .tokens hcount
    · rename_i hcount
      have hmany : 10 ≤ (Text.tokens line).length := Nat.le_of_not_lt hcount
      split at hrow
      · rename_i cause hcause
        cases hrow
        exact .line hmany ((ofText_iff_of_line h).mp hcause)
      · rename_i mount hmount
        split at hrow
        · rename_i hdevice
          cases hrow
          exact .device hmany ((ofText_iff_of_line h).mp hmount) (Text.splitOnce?_eq_none_iff.mp hdevice)
        · cases hrow
  · intro hfault
    cases hfault with
    | tokens hcount => exact if_pos hcount
    | line hmany hanswer =>
      have hcount : ¬ (Text.tokens line).length < leastTokens := Nat.not_lt_of_le hmany
      rw [if_neg hcount, (ofText_iff_of_line h).mpr hanswer]
    | device hmany hanswer hcolon =>
      have hcount : ¬ (Text.tokens line).length < leastTokens := Nat.not_lt_of_le hmany
      rw [if_neg hcount, (ofText_iff_of_line h).mpr hanswer]
      simp only [Text.splitOnce?_of_not_mem hcolon]

/-- A fault keeps a line from being a line of the table, and nothing else does. -/
theorem exists_fault_iff (h : '\n' ∉ line) : (∃ e, RowFault n line e) ↔ ¬ TableLine line := by
  have hmount : (∃ mount, MountLine.Answers line (.ok mount)) ↔ ∃ before after, MountLine.FirstCut line before after ∧
      6 ≤ (Text.words before).length ∧ 3 ≤ (Text.words after).length := by
    simp only [← ofText_iff_of_line h, MountLine.exists_mount_iff, MountLine.dropLineFeeds_of_not_mem h]
  constructor
  · rintro ⟨e, hfault⟩ ⟨hmany, before, after, hcut, hbefore, hafter, device, hthird, hcolon⟩
    cases hfault with
    | tokens hcount => exact absurd hmany (Nat.not_le_of_lt hcount)
    | line _ hanswer =>
      obtain ⟨mount, hmount⟩ := hmount.mpr ⟨before, after, hcut, hbefore, hafter⟩
      rw [← ofText_iff_of_line h] at hanswer hmount
      rw [hanswer] at hmount
      cases hmount
    | device _ hanswer hnone =>
      rw [MountLine.device_of_answers hanswer hcut] at hthird
      cases hthird
      exact hnone hcolon
  · intro hno
    by_cases hmany : 10 ≤ (Text.tokens line).length
    · cases hanswer : MountLine.ofText line with
      | error cause => exact ⟨_, .line hmany ((ofText_iff_of_line h).mp hanswer)⟩
      | ok mount =>
        rw [ofText_iff_of_line h] at hanswer
        refine ⟨_, .device hmany hanswer fun hcolon => hno ?_⟩
        obtain ⟨before, after, hcut, hbefore, hafter⟩ := hmount.mp ⟨mount, hanswer⟩
        exact ⟨hmany, before, after, hcut, hbefore, hafter, mount.device, MountLine.device_of_answers hanswer hcut, hcolon⟩
    · exact ⟨_, .tokens (Nat.lt_of_not_le hmany)⟩

theorem exists_row_iff (h : '\n' ∉ line) : (∃ cells, row n line = .ok cells) ↔ TableLine line := by
  rw [← not_iff_not, ← exists_fault_iff h]
  simp only [← row_eq_error_iff h]
  cases row n line <;> simp

theorem rows_eq_error_iff : (Format.kernel .mountinfo).rows content = .error e ↔
    ∃ i line, (Text.lines content)[i]? = some line ∧ RowFault (i + 1) line e ∧
      ∀ k < i, ∀ earlier, (Text.lines content)[k]? = some earlier → TableLine earlier := by
  show Format.eachNumbered row 1 (Text.lines content) = .error e ↔ _
  have hfeed : ∀ {i line}, (Text.lines content)[i]? = some line → '\n' ∉ line := fun hline =>
    Text.not_mem_of_mem_fields (List.mem_of_getElem? hline)
  rw [Format.eachNumbered_eq_error_iff_at]
  constructor
  · rintro ⟨i, line, hline, hfault, hbefore⟩
    rw [row_eq_error_iff (hfeed hline), Nat.add_comm] at hfault
    exact ⟨i, line, hline, hfault, fun k hk earlier hearlier =>
      (exists_row_iff (hfeed hearlier)).mp (hbefore k hk earlier hearlier)⟩
  · rintro ⟨i, line, hline, hfault, hbefore⟩
    rw [← row_eq_error_iff (hfeed hline), Nat.add_comm] at hfault
    exact ⟨i, line, hline, hfault, fun k hk earlier hearlier =>
      (exists_row_iff (hfeed hearlier)).mpr (hbefore k hk earlier hearlier)⟩

theorem exists_rows_iff : (∃ rows, (Format.kernel .mountinfo).rows content = .ok rows) ↔
    ∀ line ∈ Text.lines content, TableLine line := by
  constructor
  · rintro ⟨rows, hrows⟩ line hline
    obtain ⟨i, hi⟩ := List.mem_iff_getElem?.mp hline
    obtain ⟨cells, -, hcells⟩ := (Format.eachNumbered_eq_ok_iff_at.mp hrows).2 i line hi
    exact (exists_row_iff (Text.not_mem_of_mem_fields hline)).mp ⟨cells, hcells⟩
  · intro hlines
    cases hrows : (Format.kernel .mountinfo).rows content with
    | ok rows => exact ⟨rows, rfl⟩
    | error e =>
      obtain ⟨i, line, hline, hfault, -⟩ := rows_eq_error_iff.mp hrows
      have hmem : line ∈ Text.lines content := List.mem_of_getElem? hline
      exact absurd (hlines line hmem) ((exists_fault_iff (Text.not_mem_of_mem_fields hmem)).mp ⟨e, hfault⟩)

end Format.Mountinfo

/-! ## Lines and tables -/

namespace MountLine

open Format.Mountinfo (TableLine RowFault)

/-- Every text, its line feeds at the end left out, is a mount line exactly when it has a separator, six words
    in front of the first one and three behind it; its fields are these words, and otherwise the first that is
    missing is named. A table is read exactly when all its lines are lines of a table, and otherwise the
    fault of the first line that is not is reported with its number. Words are the maximal runs of characters
    that are not blank. -/
theorem mount_lines_read_exactly :
    (∀ t : Text, ∃ line, WithoutFeeds t line ∧
      ((∃ mount, ofText t = .ok mount) ↔ ∃ before after, FirstCut line before after ∧
        6 ≤ (Text.words before).length ∧ 3 ≤ (Text.words after).length) ∧
      ∀ answer, ofText t = answer ↔ Answers line answer) ∧
    (∀ content : Text,
      ((∃ rows, (Format.kernel .mountinfo).rows content = .ok rows) ↔ ∀ line ∈ Text.lines content, TableLine line) ∧
      ∀ e, (Format.kernel .mountinfo).rows content = .error e ↔
        ∃ i line, (Text.lines content)[i]? = some line ∧ RowFault (i + 1) line e ∧
          ∀ k < i, ∀ earlier, (Text.lines content)[k]? = some earlier → TableLine earlier) ∧
    ∀ (side : Text) (words : List Text),
      Text.words side = words ↔ Text.MaximalRuns (fun c => Text.isBlank c = true) side words := by
  refine ⟨?_, ?_, fun side words => Text.words_eq_iff⟩
  · intro t
    exact ⟨dropLineFeeds t, withoutFeeds_dropLineFeeds t, exists_mount_iff, fun answer => ofText_eq_iff⟩
  · intro content
    exact ⟨Format.Mountinfo.exists_rows_iff, fun e => Format.Mountinfo.rows_eq_error_iff⟩

/-- The source looks like a separator; the line is cut at the first one, in the middle of three spaces. -/
example : ofText "1 2 0:3 / /a rw x   -  ext3 - rw\n\n".toList =
    .ok ⟨['1'], ['2'], "0:3".toList, ['/'], "/a".toList, "rw".toList, [['x']], "ext3".toList, ['-'], "rw".toList⟩ := by
  decide

/-- The options are missed before the source, and the third line is not looked at. -/
example : (Format.kernel .mountinfo).rows
      "1 2 0:3 / /a rw - ext3 d rw\n\n1 2 0:3 / /a - ext3 x y z\n1\n".toList =
    .error (.mountLine 2 (.missingLeading .mountOptions "1 2 0:3 / /a - ext3 x y z".toList)) := by
  decide

end MountLine

end HostTables
