/-
  HostTables.Text.Blank — characters with the Unicode property `White_Space`.

  Sizes, names and switches are trimmed of blanks on both sides (`trim`); mount lines are
  cut into `words` at runs of blanks. Tokens of other files are cut at spaces only.
-/
import HostTables.Text.Basic

namespace HostTables.Text

/-- The code point ranges of the Unicode property `White_Space`, both ends included. -/
def blankRanges : List (Nat × Nat) :=
  [(0x0009, 0x000D), (0x0020, 0x0020), (0x0085, 0x0085), (0x00A0, 0x00A0), (0x1680, 0x1680),
   (0x2000, 0x200A), (0x2028, 0x2029), (0x202F, 0x202F), (0x205F, 0x205F), (0x3000, 0x3000)]

/-- A character is blank when its code point lies in one of `blankRanges`. -/
def isBlank (c : Char) : Bool :=
  blankRanges.any fun (first, last) => decide (first ≤ c.toNat) && decide (c.toNat ≤ last)

/-- Drops blanks at both ends. -/
def trim (t : Text) : Text :=
  ((t.dropWhile isBlank).reverse.dropWhile isBlank).reverse

/-- The maximal runs of characters that are not blank. -/
def words (t : Text) : List Text :=
  (t.splitOnP isBlank).filter fun piece => !piece.isEmpty

end HostTables.Text
