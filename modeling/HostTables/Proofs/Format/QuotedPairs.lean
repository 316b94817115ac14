/-
  HostTables.Proofs.Format.QuotedPairs — Downward API files give back the pairs they were written from.

  A file is written from pairs line by line, each value spelled in any way, with empty lines
  anywhere (`Written`). Its lines are those of the pairs in order (`lines_written`), and each
  is read as its pair: the first `=` ends the key, whatever the value holds
  (`quotedPair_of_line`). `quoted_pairs_round_trip` has the rows and the table.
-/
import HostTables.Format
import HostTables.Proofs.Table.Filled
import HostTables.Proofs.Text.Fields
import HostTables.Proofs.Text.Quoted

namespace HostTables.Format

/-! ## How a file is written -/

/-- A key has text, and nothing in it ends the key or the line. -/
def IsKey (key : Text) : Prop := key ≠ [] ∧ '=' ∉ key ∧ '\n' ∉ key

/-- The line of a pair: the key as it is, the value spelled between quotes. -/
inductive PairLine : Text × Text → Text → Prop
  | mk {key value spelled : Text} : IsKey key → Quoted.SpellsAll value spelled →
      PairLine (key, value) (key ++ '=' :: ('"' :: spelled ++ ['"']))

/-- The lines of the pairs, with empty lines anywhere and a line feed at the very end or none. -/
inductive Written : List (Text × Text) → Text → Prop
  | nil : Written [] []
  | blank {pairs : List (Text × Text)} {content : Text} : Written pairs content → Written pairs ('\n' :: content)
  | line {pair : Text × Text} {line : Text} {pairs : List (Text × Text)} {content : Text} :
      PairLine pair line → Written pairs content → Written (pair :: pairs) (line ++ '\n' :: content)
  | last {pair : Text × Text} {line : Text} : PairLine pair line → Written [pair] line

/-- The row of a pair. -/
def pairRow (pair : Text × Text) : Row := tokenRow [pair.1, pair.2]

/-- The values of a pair in a table. -/
def pairValues (pair : Text × Text) : List Value := [.text pair.1, .text pair.2]

/-! ## Lines -/

theorem PairLine.is_line {pair : Text × Text} {line : Text} (h : PairLine pair line) : '\n' ∉ line ∧ line ≠ [] := by
  cases h with
  | mk hkey hs =>
    obtain ⟨-, -, hn⟩ := hkey
    exact ⟨by simp [hn, Quoted.newline_not_mem_spellsAll hs], by simp⟩

/-- The first `=` is the one behind the key. -/
theorem quotedPair_of_line {pair : Text × Text} {line : Text} (h : PairLine pair line) (n : Nat) :
    quotedPair n line = .ok pair := by
  cases h with
  | @mk key value spelled hkey hs =>
    obtain ⟨hne, heq, -⟩ := hkey
    have hsplit : Text.splitOnce? '=' (key ++ '=' :: ('"' :: spelled ++ ['"'])) = some (key, '"' :: spelled ++ ['"']) :=
      Text.splitOnce?_eq_some_iff.mpr ⟨rfl, heq⟩
    rw [quotedPair, hsplit]
    simp only [hne, if_false, Quoted.decode_spelled hs]

theorem quotedRow_of_line {pair : Text × Text} {line : Text} (h : PairLine pair line) (n : Nat) :
    quotedRow n line = .ok (pairRow pair) := by
  rw [quotedRow, quotedPair_of_line h n]
  rfl

theorem lines_written {pairs : List (Text × Text)} {content : Text} (h : Written pairs content) :
    List.Forall₂ PairLine pairs (Text.lines content) := by
  unfold Text.lines
  induction h with
  | nil => exact .nil
  | blank _ ih => rwa [Text.fields_cons]
  | line hl _ ih =>
    obtain ⟨hn, hne⟩ := hl.is_line
    rw [Text.fields_append_cons, Text.fields_of_not_mem hn hne]
    exact .cons hl ih
  | last hl =>
    obtain ⟨hn, hne⟩ := hl.is_line
    rw [Text.fields_of_not_mem hn hne]
    exact .cons hl .nil

/-- Every list of pairs with keys can be written. -/
theorem exists_written {pairs : List (Text × Text)} (h : ∀ pair ∈ pairs, IsKey pair.1) :
    ∃ content, Written pairs content := by
  induction pairs with
  | nil => exact ⟨[], .nil⟩
  | cons pair rest ih =>
    obtain ⟨spelled, hs⟩ := Quoted.exists_spelled pair.2
    obtain ⟨content, hc⟩ := ih fun other ho => h other (List.mem_cons_of_mem _ ho)
    exact ⟨_, .line (.mk (h pair List.mem_cons_self) hs) hc⟩

/-! ## Rows and tables -/

theorem rows_written {pairs : List (Text × Text)} {content : Text} (h : Written pairs content) :
    Format.quotedPairs.rows content = .ok (pairs.map pairRow) := by
  refine eachNumbered_eq_ok ?_
  rw [List.forall₂_map_right_iff]
  exact (lines_written h).flip.imp fun line pair hl n => quotedRow_of_line hl n

theorem assemble_pairs {pairs : List (Text × Text)} (hne : pairs ≠ []) (path : Path) :
    Table.assemble (pairs.map pairRow) Format.quotedPairs.signature (.file path) =
      .ok ⟨Format.quotedPairs.signature, pairs.map pairValues⟩ := by
  refine Table.assemble_eq_ok (by simpa using hne) ?_ path
  rw [List.forall₂_map_left_iff, List.forall₂_map_right_iff, List.forall₂_same]
  intro pair _ n
  rfl

/-- Pairs with keys can be written, and however they are, exactly they are read back in order; if
    there are any, they are also the rows of the table. -/
theorem quoted_pairs_round_trip :
    (∀ pairs, (∀ pair ∈ pairs, IsKey pair.1) → ∃ content, Written pairs content) ∧
    ∀ pairs content, Written pairs content →
      Format.quotedPairs.rows content = .ok (pairs.map pairRow) ∧
      (pairs ≠ [] → ∀ path, Table.assemble (pairs.map pairRow) Format.quotedPairs.signature (.file path) =
        .ok ⟨[.text, .text], pairs.map pairValues⟩) := by
  refine ⟨fun pairs h => exists_written h, ?_⟩
  intro pairs content h
  refine ⟨rows_written h, ?_⟩
  intro hne path
  exact assemble_pairs hne path

/-- A value with a quote at its end, a line feed, an equals sign and a character of two bytes. -/
def labelValue : Text := "a=\né\"".toList

/-- Its line between empty ones: a code point, a name, and two bytes in digits of either case. The
    last quote but one is the value's. -/
def labelContent : Text := "\nzone=\"\\u0061=\\n\\xC3\\xa9\"\"\n\n".toList

theorem label_spelled : Quoted.SpellsAll labelValue "\\u0061=\\n\\xC3\\xa9\"".toList := by
  have ha : Quoted.Numeral 4 'a'.toNat ['0', '0', '6', '1'] :=
    show Quoted.Numeral 4 (0 * 16 ^ 3 + (0 * 16 ^ 2 + (6 * 16 ^ 1 + (1 * 16 ^ 0 + 0)))) _ from
      .cons (.inl rfl) (.cons (.inl rfl) (.cons (.inl rfl) (.cons (.inl rfl) .nil)))
  have hlead : Quoted.Numeral 2 (0xC3 : UInt8).toNat ['C', '3'] :=
    show Quoted.Numeral 2 (12 * 16 ^ 1 + (3 * 16 ^ 0 + 0)) _ from .cons (.inr rfl) (.cons (.inl rfl) .nil)
  have hlast : Quoted.Numeral 2 (0xA9 : UInt8).toNat ['a', '9'] :=
    show Quoted.Numeral 2 (10 * 16 ^ 1 + (9 * 16 ^ 0 + 0)) _ from .cons (.inl rfl) (.cons (.inl rfl) .nil)
  have hbytes : Quoted.SpellsBytes (String.utf8EncodeChar 'é') ['\\', 'x', 'C', '3', '\\', 'x', 'a', '9'] :=
    show Quoted.SpellsBytes [0xC3, 0xA9] _ from .cons hlead (.cons hlast .nil)
  have hequals : Quoted.Spells '=' ['='] := .literal (by decide) (by decide)
  have hfeed : Quoted.Spells '\n' ['\\', 'n'] := .named (by decide)
  have hquote : Quoted.Spells '"' ['"'] := .literal (by decide) (by decide)
  exact .cons (.short ha) (.cons hequals (.cons hfeed (.cons (.bytes hbytes) (.cons hquote .nil))))

theorem label_round_trip :
    Written [("zone".toList, labelValue)] labelContent ∧
    Format.quotedPairs.rows labelContent = .ok [[.token "zone".toList, .token labelValue]] ∧
    Table.assemble [[.token "zone".toList, .token labelValue]] [.text, .text] (.file (.ofString "/labels")) =
      .ok ⟨[.text, .text], [[.text "zone".toList, .text labelValue]]⟩ := by
  have hwritten : Written [("zone".toList, labelValue)] labelContent :=
    .blank (.line (.mk ⟨by decide, by decide, by decide⟩ label_spelled) (.blank .nil))
  obtain ⟨hrows, htable⟩ := quoted_pairs_round_trip.2 _ _ hwritten
  exact ⟨hwritten, hrows, htable (by simp) _⟩

end HostTables.Format
