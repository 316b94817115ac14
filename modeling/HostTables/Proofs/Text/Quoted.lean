/-
  HostTables.Proofs.Text.Quoted — every spelling of a quoted value is read as that value.

  A character can be written as it is, by a name, byte by byte or by its code point (`Spells`),
  each character of a value in a way of its own (`SpellsAll`). The decoder takes the spelling of
  one character off and stands in literal text again (`bytesFrom_spells`); by induction it
  takes off a whole value and drops the closing quote (`bytesFrom_spellsAll`). What it has then
  is the value in UTF-8, so `decode_spelled` gives the value back.
-/
import HostTables.Proofs.Outcome
import HostTables.Proofs.Text.Utf8
import HostTables.Text.Quoted
import Mathlib.Algebra.Group.Nat.Defs

namespace HostTables.Quoted

/-! ## How a value is written -/

/-- The digits of base sixteen in either case, each at its value. -/
def lowerDigits : Text := "0123456789abcdef".toList

def upperDigits : Text := "0123456789ABCDEF".toList

/-- The character is a digit of this value. -/
def Digit (c : Char) (value : Nat) : Prop := lowerDigits[value]? = some c ∨ upperDigits[value]? = some c

/-- A number in as many digits, the most significant first. -/
inductive Numeral : Nat → Nat → Text → Prop
  | nil : Numeral 0 0 []
  | cons {c : Char} {digit width value : Nat} {t : Text} :
      Digit c digit → Numeral width value t → Numeral (width + 1) (digit * 16 ^ width + value) (c :: t)

/-- The letters behind a backslash, with the characters they name. -/
def escapes : List (Char × Char) :=
  [('\\', '\\'), ('"', '"'), ('a', '\x07'), ('b', '\x08'), ('f', '\x0c'), ('n', '\n'), ('r', '\r'), ('t', '\t'),
    ('v', '\x0b')]

/-- Every byte by two digits. -/
inductive SpellsBytes : List UInt8 → Text → Prop
  | nil : SpellsBytes [] []
  | cons {b : UInt8} {bytes : List UInt8} {digits t : Text} :
      Numeral 2 b.toNat digits → SpellsBytes bytes t → SpellsBytes (b :: bytes) ('\\' :: 'x' :: digits ++ t)

/-- The ways to write one character of a value. -/
inductive Spells (c : Char) : Text → Prop
  | literal : c ≠ '\\' → c ≠ '\n' → Spells c [c]
  | named {letter : Char} : (letter, c) ∈ escapes → Spells c ['\\', letter]
  | bytes {t : Text} : SpellsBytes (String.utf8EncodeChar c) t → Spells c t
  | short {digits : Text} : Numeral 4 c.toNat digits → Spells c ('\\' :: 'u' :: digits)
  | long {digits : Text} : Numeral 8 c.toNat digits → Spells c ('\\' :: 'U' :: digits)

/-- Every character of a value in one of its ways. -/
inductive SpellsAll : Text → Text → Prop
  | nil : SpellsAll [] []
  | cons {c : Char} {value s t : Text} : Spells c s → SpellsAll value t → SpellsAll (c :: value) (s ++ t)

/-! ## Digits -/

theorem hexDigit?_of_digit {c : Char} {value : Nat} (h : Digit c value) : hexDigit? c = some value := by
  have hlower : ∀ i : Fin 16, (lowerDigits[i.val]?).bind hexDigit? = some i.val := by decide
  have hupper : ∀ i : Fin 16, (upperDigits[i.val]?).bind hexDigit? = some i.val := by decide
  rcases h with h | h
  · obtain ⟨hi, -⟩ := List.getElem?_eq_some_iff.mp h
    simpa only [h, Option.bind_some] using hlower ⟨value, hi⟩
  · obtain ⟨hi, -⟩ := List.getElem?_eq_some_iff.mp h
    simpa only [h, Option.bind_some] using hupper ⟨value, hi⟩

theorem exists_digit {value : Nat} (h : value < 16) : ∃ c, Digit c value :=
  ⟨lowerDigits.get ⟨value, h⟩, Or.inl (List.getElem?_eq_getElem h)⟩

theorem exists_numeral {width : Nat} : ∀ {value : Nat}, value < 16 ^ width → ∃ digits, Numeral width value digits := by
  induction width with
  | zero =>
    intro value h
    obtain rfl : value = 0 := by simpa using h
    exact ⟨[], .nil⟩
  | succ width ih =>
    intro value h
    have hdigit : value / 16 ^ width < 16 := Nat.div_lt_of_lt_mul (by rwa [← Nat.pow_succ])
    obtain ⟨c, hc⟩ := exists_digit hdigit
    obtain ⟨t, ht⟩ := ih (Nat.mod_lt value (Nat.pow_pos (by decide)))
    have hvalue : value / 16 ^ width * 16 ^ width + value % 16 ^ width = value := by
      rw [Nat.mul_comm]
      exact Nat.div_add_mod value _
    exact ⟨c :: t, hvalue ▸ .cons hc ht⟩

/-- The digits of a numeral are added to what has been read of it, and the escape is complete. -/
theorem bytesFrom_numeral (kind : HexEscape) (rest : Text) {missing : Nat} :
    ∀ {before value : Nat} {digits : Text}, Numeral (missing + 1) value digits →
      bytesFrom (.hex kind missing before) (digits ++ rest) =
        (do return (← kind.bytes (before * 16 ^ (missing + 1) + value)) ++ (← bytesFrom .literal rest)) := by
  induction missing with
  | zero =>
    intro before value digits h
    cases h with
    | cons hd h =>
      cases h
      rw [Nat.zero_add, Nat.pow_one, Nat.pow_zero, Nat.mul_one, Nat.add_zero]
      simp only [List.cons_append, List.nil_append, bytesFrom, hexDigit?_of_digit hd]
  | succ missing ih =>
    intro before value digits h
    cases h with
    | @cons c digit _ value _ hd h =>
      have hvalue : (before * 16 + digit) * 16 ^ (missing + 1) + value =
          before * 16 ^ (missing + 1 + 1) + (digit * 16 ^ (missing + 1) + value) := by
        rw [Nat.pow_succ 16 (missing + 1), Nat.add_mul, Nat.mul_assoc, Nat.mul_comm 16, Nat.add_assoc]
      simp only [List.cons_append, bytesFrom, hexDigit?_of_digit hd]
      rw [ih h, hvalue]

/-! ## Spellings -/

theorem bytesFrom_escape (kind : HexEscape) (t : Text) :
    bytesFrom .literal ('\\' :: kind.letter :: t) = bytesFrom (.hex kind (kind.digits - 1) 0) t := by
  cases kind <;> simp [bytesFrom, HexEscape.letter, HexEscape.ofLetter?]

theorem bytesFrom_plain {c : Char} (h : HexEscape.ofLetter? c = none) (t : Text) :
    bytesFrom .literal ('\\' :: c :: t) = (plainEscape c ++ ·) <$> bytesFrom .literal t := by
  have hback : ¬ ('\\' = '"' ∧ c :: t = []) := by simp
  simp only [bytesFrom, hback, if_false, if_true, h]
  cases bytesFrom .literal t <;> rfl

/-- An escape with all its digits is judged by its value. -/
theorem bytesFrom_hex (kind : HexEscape) {value : Nat} {digits : Text} (h : Numeral kind.digits value digits)
    (rest : Text) : bytesFrom .literal ('\\' :: kind.letter :: digits ++ rest) =
      (do return (← kind.bytes value) ++ (← bytesFrom .literal rest)) := by
  have hdigits : kind.digits - 1 + 1 = kind.digits := by cases kind <;> rfl
  rw [List.cons_append, List.cons_append, bytesFrom_escape, bytesFrom_numeral kind rest (hdigits.symm ▸ h),
    Nat.zero_mul, Nat.zero_add]

/-- It stands for what its value stands for. -/
theorem bytesFrom_hex_ok (kind : HexEscape) {value : Nat} {digits : Text} {bytes : List UInt8}
    (h : Numeral kind.digits value digits) (hbytes : kind.bytes value = .ok bytes) (rest : Text) :
    bytesFrom .literal ('\\' :: kind.letter :: digits ++ rest) = (bytes ++ ·) <$> bytesFrom .literal rest := by
  rw [bytesFrom_hex kind h, hbytes]
  cases bytesFrom .literal rest <;> rfl

theorem bytes_of_byte (b : UInt8) : HexEscape.byte.bytes b.toNat = .ok [b] := by
  simp [HexEscape.bytes]

theorem bytes_of_char {kind : HexEscape} (hk : kind ≠ .byte) (c : Char) :
    kind.bytes c.toNat = .ok (String.utf8EncodeChar c) := by
  have hc : c.toNat.isValidChar := c.valid
  cases kind with
  | byte => exact absurd rfl hk
  | short => simp [HexEscape.bytes, hc]
  | long => simp [HexEscape.bytes, hc]

theorem bytesFrom_spellsBytes {bytes out : List UInt8} {t rest : Text} (h : SpellsBytes bytes t)
    (hrest : bytesFrom .literal rest = .ok out) : bytesFrom .literal (t ++ rest) = .ok (bytes ++ out) := by
  induction h with
  | nil => exact hrest
  | @cons b bytes digits t hb _ ih =>
    have hcons := bytesFrom_hex_ok .byte hb (bytes_of_byte b) (t ++ rest)
    rw [ih] at hcons
    rw [List.append_assoc]
    exact hcons

/-- The letters of the named escapes: none of them asks for digits, and each names its character. -/
theorem named_of_mem : ∀ p ∈ escapes, HexEscape.ofLetter? p.1 = none ∧ named? p.1 = some p.2 ∧ p.1 ≠ '\n' := by
  decide

/-- The spelling of a character is taken off what follows it; a quote that is written as it is
    has something behind it, so it is not the closing one. -/
theorem bytesFrom_spells {c : Char} {s rest : Text} {out : List UInt8} (h : Spells c s) (hne : rest ≠ [])
    (hrest : bytesFrom .literal rest = .ok out) :
    bytesFrom .literal (s ++ rest) = .ok (String.utf8EncodeChar c ++ out) := by
  cases h with
  | literal hb hn =>
    simp only [List.cons_append, List.nil_append, bytesFrom, hne, hb, and_false, if_false, hrest]
    rfl
  | @named letter hl =>
    obtain ⟨hdigits, hnamed, -⟩ := named_of_mem _ hl
    have hplain : plainEscape letter = String.utf8EncodeChar c := by simp [plainEscape, hnamed, Utf8.encode]
    rw [List.cons_append, List.singleton_append, bytesFrom_plain hdigits, hplain, hrest]
    rfl
  | bytes hb => exact bytesFrom_spellsBytes hb hrest
  | short hd =>
    have hshort := bytesFrom_hex_ok .short hd (bytes_of_char (by decide) c) rest
    rw [hrest] at hshort
    exact hshort
  | long hd =>
    have hlong := bytesFrom_hex_ok .long hd (bytes_of_char (by decide) c) rest
    rw [hrest] at hlong
    exact hlong

theorem bytesFrom_spellsAll {value t : Text} (h : SpellsAll value t) :
    bytesFrom .literal (t ++ ['"']) = .ok (Utf8.encode value) := by
  induction h with
  | nil => rfl
  | cons hs _ ih =>
    rw [List.append_assoc]
    exact bytesFrom_spells hs (by simp) ih

/-- Whatever the spelling, the value is read back. -/
theorem decode_spelled {value t : Text} (h : SpellsAll value t) : decode ('"' :: t ++ ['"']) = .ok value := by
  have hbytes : bytes ('"' :: t ++ ['"']) = .ok (Utf8.encode value) := bytesFrom_spellsAll h
  rw [decode, hbytes]
  refine bind_eq_ok.mpr ⟨Utf8.encode value, rfl, ?_⟩
  rw [Utf8.decode?_encode]

/-! ## Spellings and lines -/

/-- Every value can be written, its characters by their code points if in no other way. -/
theorem exists_spelled (value : Text) : ∃ t, SpellsAll value t := by
  induction value with
  | nil => exact ⟨[], .nil⟩
  | cons c value ih =>
    have hc : c.toNat < 16 ^ 8 := by
      have := Utf8.toNat_valid c
      omega
    obtain ⟨digits, hd⟩ := exists_numeral hc
    obtain ⟨t, ht⟩ := ih
    exact ⟨_, .cons (.long hd) ht⟩

theorem newline_not_mem_numeral {width value : Nat} {digits : Text} (h : Numeral width value digits) :
    '\n' ∉ digits := by
  induction h with
  | nil => exact List.not_mem_nil
  | cons hd _ ih =>
    have hc := hexDigit?_of_digit hd
    rw [List.mem_cons, not_or]
    refine ⟨?_, ih⟩
    rintro rfl
    cases hc

theorem newline_not_mem_spellsBytes {bytes : List UInt8} {t : Text} (h : SpellsBytes bytes t) : '\n' ∉ t := by
  induction h with
  | nil => exact List.not_mem_nil
  | cons hb _ ih => simp [newline_not_mem_numeral hb, ih]

theorem newline_not_mem_spells {c : Char} {s : Text} (h : Spells c s) : '\n' ∉ s := by
  cases h with
  | literal hb hn => simpa using Ne.symm hn
  | named hl => simpa using Ne.symm (named_of_mem _ hl).2.2
  | bytes hb => exact newline_not_mem_spellsBytes hb
  | short hd => simp [newline_not_mem_numeral hd]
  | long hd => simp [newline_not_mem_numeral hd]

/-- A spelling stays on its line, also where the value has line feeds. -/
theorem newline_not_mem_spellsAll {value t : Text} (h : SpellsAll value t) : '\n' ∉ t := by
  induction h with
  | nil => exact List.not_mem_nil
  | cons hs _ ih => simp [newline_not_mem_spells hs, ih]

end HostTables.Quoted
