/-
  HostTables.Proofs.Coerce.SizeRounding — which byte counts are exact up to rounding.

  The exact bytes of a size are all of its digits, as one number over a power of ten, times a power
  of 1024 (`SizeLiteral.exactBytes`). What is computed is the same for the size with its fraction
  cut to the digits that are looked at, rounded half away from zero (`roundsAway_magnitude`). Cutting
  does no harm unless the digits that are cut off reach a half byte that the others do not (`CutsTie`).
  In bytes and kilobytes they never do, since half a byte has no more digits there than are kept
  (`not_cutsTie_of_unit`); in larger units half a byte has more (`cutsTie_halfByte`). `rounded_size_exact_iff`
  puts this together. `half_byte_of_megabyte`: a half byte of twenty-one digits, which is lost.
-/
import HostTables.Proofs.Coerce.SizeText
import HostTables.Proofs.Number.Rounding
import Mathlib.Tactic.FieldSimp
import Mathlib.Tactic.Ring

namespace HostTables

/-! ## Digits -/

namespace Decimal

theorem value_append (a b : Text) : value (a ++ b) = value a * 10 ^ b.length + value b := by
  rw [value, Nat.ofDigitChars_append, Nat.ofDigitChars_eq_ofDigitChars_zero, Nat.mul_comm]
  rfl

theorem value_lt {t : Text} (h : allDigits t = true) : value t < 10 ^ t.length := by
  induction t with
  | nil => decide
  | cons c rest ih =>
    simp only [allDigits, List.all_cons, Bool.and_eq_true] at h
    have hrest : value rest < 10 ^ rest.length := ih h.2
    have hdigit : value [c] ≤ 9 := by
      have hrange := Char.isDigit_iff_toNat.mp h.1
      have hnine : '9'.toNat = '0'.toNat + 9 := rfl
      show 10 * 0 + (c.toNat - '0'.toNat) ≤ 9
      omega
    calc value (c :: rest) = value [c] * 10 ^ rest.length + value rest := value_append [c] rest
      _ < 9 * 10 ^ rest.length + 10 ^ rest.length := Nat.add_lt_add_of_le_of_lt (Nat.mul_le_mul_right _ hdigit) hrest
      _ = 10 ^ (c :: rest).length := by rw [List.length_cons, pow_succ]; ring

end Decimal

/-! ## The exact bytes and the computed ones -/

namespace SizeLiteral

/-- The size with the digits of its fraction that are looked at. -/
def cut (size : SizeLiteral) : SizeLiteral := { size with fraction := size.keptFraction }

/-- The number that the digits denote. -/
def amount (size : SizeLiteral) : ℚ := Decimal.value (size.whole ++ size.fraction) / 10 ^ size.fraction.length

/-- The bytes of the size without its sign, none rounded away. -/
def exactMagnitude (size : SizeLiteral) (unit : SizeUnit) : ℚ := size.amount * 1024 ^ unit.power

/-- The product of the size and its unit. -/
def exactBytes (size : SizeLiteral) (unit : SizeUnit) : ℚ :=
  if size.negative then -size.exactMagnitude unit else size.exactMagnitude unit

/-- The digits that are cut off reach a half byte that the others do not. -/
def CutsTie (size : SizeLiteral) (unit : SizeUnit) : Prop :=
  TieBetween (size.cut.exactMagnitude unit) (size.exactMagnitude unit)

variable {size : SizeLiteral} {unit : SizeUnit}

theorem amount_nonneg (size : SizeLiteral) : 0 ≤ size.amount := by
  unfold amount
  positivity

theorem exactMagnitude_nonneg (size : SizeLiteral) (unit : SizeUnit) : 0 ≤ size.exactMagnitude unit :=
  mul_nonneg size.amount_nonneg (by positivity)

theorem floor_half (a k : ℕ) : ⌊(a : ℚ) / 10 ^ k + 1 / 2⌋ = ((a + 10 ^ k / 2) / 10 ^ k : ℕ) := by
  cases k with
  | zero =>
    rw [Int.floor_eq_iff]
    norm_num
  | succ k =>
    have hhalf : 10 ^ (k + 1) / 2 = 5 * 10 ^ k := by rw [pow_succ]; omega
    have hsum : (a : ℚ) / 10 ^ (k + 1) + 1 / 2 = ((a + 5 * 10 ^ k : ℕ) : ℤ) / ((10 ^ (k + 1) : ℕ) : ℚ) := by
      push_cast
      field_simp
      ring
    rw [hhalf, hsum, Rat.floor_intCast_div_natCast]
    norm_cast

/-- The bytes of whole and fraction, which are rounded apart, are those of both together. -/
theorem magnitude_eq_floor (size : SizeLiteral) (unit : SizeUnit) :
    ⌊size.cut.exactMagnitude unit + 1 / 2⌋ = size.magnitude unit := by
  have hvalue := Decimal.value_append size.whole size.keptFraction
  have hproduct : size.cut.exactMagnitude unit =
      ((Decimal.value (size.whole ++ size.keptFraction) * unit.factor : ℕ) : ℚ) / 10 ^ size.keptFraction.length := by
    have hfactor : (unit.factor : ℚ) = 1024 ^ unit.power := by
      show ((1024 ^ unit.power : ℕ) : ℚ) = 1024 ^ unit.power
      push_cast
      rfl
    rw [exactMagnitude, amount, cut, ← hfactor]
    push_cast
    ring
  have hscale : size.fractionScale = 10 ^ size.keptFraction.length := rfl
  have hsum : Decimal.value (size.whole ++ size.keptFraction) * unit.factor + 10 ^ size.keptFraction.length / 2 =
      size.fractionNumerator unit + 10 ^ size.keptFraction.length * (Decimal.value size.whole * unit.factor) := by
    rw [hvalue, fractionNumerator, hscale]
    ring
  rw [hproduct, floor_half, hsum, Nat.add_mul_div_left _ _ (by positivity), magnitude, fractionBytes, hscale,
    Nat.add_comm]

theorem roundsAway_magnitude (size : SizeLiteral) (unit : SizeUnit) :
    RoundsAway (size.cut.exactMagnitude unit) (size.magnitude unit) :=
  (roundsAway_iff_floor (size.cut.exactMagnitude_nonneg unit)).mpr (size.magnitude_eq_floor unit)

/-! ## What cutting changes -/

theorem cut_eq_self (h : size.fraction.length ≤ fractionLimit) : size.cut = size := by
  rw [cut, keptFraction, List.take_of_length_le h]

theorem length_cut (h : fractionLimit < size.fraction.length) : size.cut.fraction.length = fractionLimit := by
  rw [cut, keptFraction, List.length_take, Nat.min_eq_left h.le]

theorem cut_amount (h : fractionLimit < size.fraction.length) :
    size.cut.amount = Decimal.value (size.whole ++ size.keptFraction) / 10 ^ fractionLimit := by
  rw [amount, length_cut h]
  rfl

/-- The digits that are cut off are worth less than one in the last place that is kept. -/
theorem amount_cut (hnumeric : size.Numeric) (h : fractionLimit < size.fraction.length) :
    size.cut.amount ≤ size.amount ∧ size.amount < size.cut.amount + 1 / 10 ^ fractionLimit := by
  have hdigits : Decimal.allDigits (size.fraction.drop fractionLimit) = true := by
    refine List.all_eq_true.mpr fun c hc => hnumeric.isDigit ?_
    exact List.mem_append_right _ (List.mem_of_mem_drop hc)
  have hparts : size.whole ++ size.fraction =
      (size.whole ++ size.keptFraction) ++ size.fraction.drop fractionLimit := by
    rw [keptFraction, List.append_assoc, List.take_append_drop]
  have hlength : size.fraction.length = fractionLimit + (size.fraction.drop fractionLimit).length := by
    rw [List.length_drop]
    omega
  have hrest : (Decimal.value (size.fraction.drop fractionLimit) : ℚ) < 10 ^ (size.fraction.drop fractionLimit).length := by
    exact_mod_cast Decimal.value_lt hdigits
  have hamount : size.amount = size.cut.amount +
      Decimal.value (size.fraction.drop fractionLimit) / 10 ^ (size.fraction.drop fractionLimit).length /
        10 ^ fractionLimit := by
    rw [cut_amount h, amount, hparts, Decimal.value_append, hlength, pow_add]
    push_cast
    field_simp
  have hshare : (Decimal.value (size.fraction.drop fractionLimit) : ℚ) /
      10 ^ (size.fraction.drop fractionLimit).length < 1 := (div_lt_one (by positivity)).mpr hrest
  rw [hamount]
  constructor
  · exact le_add_of_nonneg_right (by positivity)
  · gcongr

theorem exactMagnitude_cut (hnumeric : size.Numeric) (unit : SizeUnit) :
    size.cut.exactMagnitude unit ≤ size.exactMagnitude unit ∧
      size.exactMagnitude unit < size.cut.exactMagnitude unit + 1 := by
  rcases Nat.lt_or_ge fractionLimit size.fraction.length with h | h
  · obtain ⟨hle, hlt⟩ := amount_cut hnumeric h
    have hpower : (0 : ℚ) < 1024 ^ unit.power := by positivity
    have hsmall : (1 : ℚ) / 10 ^ fractionLimit * 1024 ^ unit.power < 1 := by
      cases unit <;> norm_num [SizeUnit.power, fractionLimit]
    refine ⟨mul_le_mul_of_nonneg_right hle hpower.le, ?_⟩
    calc size.exactMagnitude unit
        < (size.cut.amount + 1 / 10 ^ fractionLimit) * 1024 ^ unit.power := mul_lt_mul_of_pos_right hlt hpower
      _ = size.cut.exactMagnitude unit + 1 / 10 ^ fractionLimit * 1024 ^ unit.power := by rw [add_mul]; rfl
      _ < size.cut.exactMagnitude unit + 1 := by linarith
  · rw [cut_eq_self h]
    exact ⟨le_refl _, lt_add_one _⟩

/-! ## Ties -/

theorem not_cutsTie_of_short (h : size.fraction.length ≤ fractionLimit) : ¬ size.CutsTie unit := by
  rintro ⟨n, hlow, hhigh⟩
  rw [cut_eq_self h] at hlow
  linarith

/-- Half a byte is a whole number of steps in the last place that is kept, so what is cut off does not
    reach one. -/
theorem not_cutsTie_of_steps (hnumeric : size.Numeric) (steps : ℕ) (hpos : 0 < steps)
    (hsteps : 10 ^ fractionLimit = 2 * steps * 1024 ^ unit.power) : ¬ size.CutsTie unit := by
  rcases Nat.lt_or_ge fractionLimit size.fraction.length with h | h
  · obtain ⟨-, hlt⟩ := amount_cut hnumeric h
    have hscale : (10 : ℚ) ^ fractionLimit = 2 * steps * 1024 ^ unit.power := by exact_mod_cast hsteps
    have hpower : (0 : ℚ) < 1024 ^ unit.power := by positivity
    have hunit : ∀ places : ℚ, places / 10 ^ fractionLimit * 1024 ^ unit.power = places / (2 * steps) := by
      intro places
      rw [hscale]
      field_simp
    refine not_tieBetween_of_steps (Decimal.value (size.whole ++ size.keptFraction)) hpos ?_ ?_
    · rw [exactMagnitude, cut_amount h, hunit]
    · rw [cut_amount h, ← add_div] at hlt
      rw [exactMagnitude, ← hunit]
      exact mul_lt_mul_of_pos_right hlt hpower
  · exact not_cutsTie_of_short h

theorem not_cutsTie_of_unit (hnumeric : size.Numeric) (h : unit = .byte ∨ unit = .kilobyte) : ¬ size.CutsTie unit := by
  rcases h with rfl | rfl
  · exact not_cutsTie_of_steps hnumeric (5 * 10 ^ 17) (by decide) (by decide)
  · exact not_cutsTie_of_steps hnumeric 488281250000000 (by decide) (by decide)

/-- Half a byte, written in the unit. -/
def halfByte (unit : SizeUnit) : SizeLiteral :=
  ⟨false, [], List.replicate (3 * unit.power) '0' ++ Decimal.ofNat (5 ^ (10 * unit.power + 1))⟩

/-- Larger units need more digits for half a byte than are kept. -/
theorem cutsTie_halfByte (hbyte : unit ≠ .byte) (hkilo : unit ≠ .kilobyte) :
    (halfByte unit).Numeric ∧ (halfByte unit).CutsTie unit := by
  have hdigits : (halfByte unit).Numeric ∧
      Decimal.value ((halfByte unit).whole ++ (halfByte unit).fraction) * 1024 ^ unit.power * 2 =
        10 ^ (halfByte unit).fraction.length ∧
      Decimal.value ((halfByte unit).cut.whole ++ (halfByte unit).cut.fraction) * 1024 ^ unit.power * 2 <
        10 ^ (halfByte unit).cut.fraction.length := by
    cases unit with
    | byte => exact absurd rfl hbyte
    | kilobyte => exact absurd rfl hkilo
    | megabyte => decide +kernel
    | gigabyte => decide +kernel
    | terabyte => decide +kernel
    | petabyte => decide +kernel
  obtain ⟨hnumeric, hexact, hcut⟩ := hdigits
  refine ⟨hnumeric, 0, ?_, ?_⟩
  · rw [exactMagnitude, amount, div_mul_eq_mul_div, div_lt_iff₀ (by positivity)]
    have : (Decimal.value ((halfByte unit).cut.whole ++ (halfByte unit).cut.fraction) * 1024 ^ unit.power * 2 : ℚ) <
        10 ^ (halfByte unit).cut.fraction.length := by exact_mod_cast hcut
    push_cast
    linarith
  · rw [exactMagnitude, amount, div_mul_eq_mul_div, le_div_iff₀ (by positivity)]
    have : (Decimal.value ((halfByte unit).whole ++ (halfByte unit).fraction) * 1024 ^ unit.power * 2 : ℚ) =
        10 ^ (halfByte unit).fraction.length := by exact_mod_cast hexact
    push_cast
    linarith

/-! ## Rounding -/

theorem roundsAway_bytes_iff (size : SizeLiteral) (unit : SizeUnit) :
    RoundsAway (size.exactBytes unit) (size.bytes unit) ↔
      RoundsAway (size.exactMagnitude unit) (size.magnitude unit) := by
  unfold exactBytes bytes
  split
  · exact roundsAway_neg
  · exact Iff.rfl

/-- The bytes are those of the size with its fraction cut, rounded half away from zero. -/
theorem roundsAway_cut_iff {n : ℤ} : RoundsAway (size.cut.exactBytes unit) n ↔ n = size.bytes unit := by
  have hrounded : RoundsAway (size.cut.exactBytes unit) (size.bytes unit) := by
    have hsign : size.cut.negative = size.negative := rfl
    unfold exactBytes bytes
    rw [hsign]
    split
    · exact roundsAway_neg.mpr (size.roundsAway_magnitude unit)
    · exact size.roundsAway_magnitude unit
  constructor
  · intro h
    exact h.unique hrounded
  · rintro rfl
    exact hrounded

theorem roundsAway_bytes_iff_not_cutsTie (hnumeric : size.Numeric) :
    RoundsAway (size.exactBytes unit) (size.bytes unit) ↔ ¬ size.CutsTie unit := by
  rw [roundsAway_bytes_iff]
  exact roundsAway_iff_no_tie (size.cut.exactMagnitude_nonneg unit) (exactMagnitude_cut hnumeric unit).1
    (size.roundsAway_magnitude unit)

theorem natAbs_bytes (size : SizeLiteral) (unit : SizeUnit) : (size.bytes unit).natAbs = size.magnitude unit := by
  unfold bytes
  split
  · rw [Int.natAbs_neg, Int.natAbs_natCast]
  · exact Int.natAbs_natCast _

/-- A tie that is lost costs one byte. -/
theorem exists_roundsAway_of_cutsTie (hnumeric : size.Numeric) (htie : size.CutsTie unit) :
    ∃ n : ℤ, RoundsAway (size.exactBytes unit) n ∧ n.natAbs = (size.bytes unit).natAbs + 1 := by
  have hnext : RoundsAway (size.exactMagnitude unit) ((size.magnitude unit : ℤ) + 1) :=
    roundsAway_succ (size.cut.exactMagnitude_nonneg unit) (exactMagnitude_cut hnumeric unit).2
      (size.roundsAway_magnitude unit) htie
  rw [natAbs_bytes]
  unfold exactBytes
  split
  · exact ⟨-((size.magnitude unit : ℤ) + 1), roundsAway_neg.mpr hnext, by omega⟩
  · exact ⟨_, hnext, by omega⟩

/-- Bytes that a size is converted to are its exact bytes, rounded half away from zero, unless the digits
    that are not looked at reach a half byte that the others do not; then they are one byte too few. In
    bytes and kilobytes, and with no more digits than are looked at, that does not happen; in every
    larger unit there is a size to which it does. -/
theorem rounded_size_exact_iff (size : SizeLiteral) (unit : SizeUnit) :
    (∀ t name : Text, size.Spells t → unit.Names name → ∀ bytes, Coerce.sizeToBytes t name = .ok bytes →
      (RoundsAway (size.exactBytes unit) bytes.val ↔ ¬ size.CutsTie unit) ∧
      (size.CutsTie unit → ∃ n : ℤ, RoundsAway (size.exactBytes unit) n ∧ n.natAbs = bytes.val.natAbs + 1)) ∧
    (size.Numeric → unit = .byte ∨ unit = .kilobyte ∨ size.fraction.length ≤ 18 → ¬ size.CutsTie unit) ∧
    (unit ≠ .byte → unit ≠ .kilobyte → ∃ tied : SizeLiteral, tied.Numeric ∧ tied.CutsTie unit) := by
  refine ⟨?_, ?_, ?_⟩
  · intro t name ht hname bytes hbytes
    have hnumeric := ht.numeric
    rw [(sizeToBytes_eq_ok_iff ht hname).mp hbytes]
    exact ⟨roundsAway_bytes_iff_not_cutsTie hnumeric, exists_roundsAway_of_cutsTie hnumeric⟩
  · intro hnumeric h
    rcases h with hbyte | hkilo | hshort
    · exact not_cutsTie_of_unit hnumeric (Or.inl hbyte)
    · exact not_cutsTie_of_unit hnumeric (Or.inr hkilo)
    · exact not_cutsTie_of_short hshort
  · intro hbyte hkilo
    exact ⟨halfByte unit, cutsTie_halfByte hbyte hkilo⟩

/-- One and a half kilobytes below zero. -/
def belowZero : SizeLiteral := ⟨true, ['1'], ['5']⟩

/-- Half a byte in megabytes, behind a zero. -/
def halfByteWritten : SizeLiteral := ⟨false, ['0'], "000000476837158203125".toList⟩

theorem belowZero_spelled : belowZero.Spells "-1.5".toList :=
  have hnumeric : belowZero.Numeric := by decide
  .parts hnumeric .minus (.point ['5'])

theorem halfByteWritten_spelled : halfByteWritten.Spells "0.000000476837158203125".toList :=
  have hnumeric : halfByteWritten.Numeric := by decide
  .parts hnumeric .none (.point "000000476837158203125".toList)

theorem halfByteWritten_exact : halfByteWritten.exactBytes .megabyte = 1 / 2 := by
  have hvalue : Decimal.value (halfByteWritten.whole ++ halfByteWritten.fraction) = 476837158203125 := by decide
  have hlength : halfByteWritten.fraction.length = 21 := by decide
  have hpower : SizeUnit.megabyte.power = 2 := rfl
  have hsign : halfByteWritten.negative = false := rfl
  rw [exactBytes, exactMagnitude, amount, hvalue, hlength, hpower, hsign]
  norm_num

/-- A size that is rounded as it should be, and one that is a byte short. -/
theorem sizes_rounded :
    RoundsAway (belowZero.exactBytes .kilobyte) (-1536) ∧
    ∃ n : ℤ, RoundsAway (halfByteWritten.exactBytes .megabyte) n ∧ n.natAbs = 1 := by
  have hbelow : Coerce.sizeToBytes "-1.5".toList "Kb".toList = .ok ⟨-1536, by decide, by decide⟩ := by decide +kernel
  have hhalf : Coerce.sizeToBytes "0.000000476837158203125".toList "MB".toList = .ok ⟨0, by decide, by decide⟩ := by
    decide +kernel
  have htie : halfByteWritten.CutsTie .megabyte := by
    refine ⟨0, ?_, ?_⟩
    · have hvalue : Decimal.value (halfByteWritten.cut.whole ++ halfByteWritten.cut.fraction) = 476837158203 := by decide
      have hlength : halfByteWritten.cut.fraction.length = 18 := by decide
      have hpower : SizeUnit.megabyte.power = 2 := rfl
      rw [exactMagnitude, amount, hvalue, hlength, hpower]
      norm_num
    · have hmagnitude : halfByteWritten.exactMagnitude .megabyte = 1 / 2 := halfByteWritten_exact
      rw [hmagnitude]
      norm_num
  constructor
  · obtain ⟨converted, untied, -⟩ := rounded_size_exact_iff belowZero .kilobyte
    obtain ⟨rounded, -⟩ := converted _ _ belowZero_spelled (by decide) _ hbelow
    exact rounded.mpr (untied (by decide) (Or.inr (Or.inl rfl)))
  · obtain ⟨converted, -, -⟩ := rounded_size_exact_iff halfByteWritten .megabyte
    obtain ⟨-, short⟩ := converted _ _ halfByteWritten_spelled (by decide) _ hhalf
    exact short htie

/-- The half byte is rounded to none, though it is to be rounded to one. -/
theorem half_byte_of_megabyte :
    halfByteWritten.Spells "0.000000476837158203125".toList ∧ SizeUnit.megabyte.Names "MB".toList ∧
    Coerce.sizeToBytes "0.000000476837158203125".toList "MB".toList = .ok ⟨0, by decide, by decide⟩ ∧
    RoundsAway (halfByteWritten.exactBytes .megabyte) 1 ∧ ¬ RoundsAway (halfByteWritten.exactBytes .megabyte) 0 := by
  refine ⟨halfByteWritten_spelled, by decide, by decide +kernel, ?_, ?_⟩
  · rw [halfByteWritten_exact, roundsAway_iff_floor (by norm_num)]
    norm_num
  · rw [halfByteWritten_exact, roundsAway_iff_floor (by norm_num)]
    norm_num

end SizeLiteral

end HostTables
