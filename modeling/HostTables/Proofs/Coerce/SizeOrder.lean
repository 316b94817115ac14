/-
  HostTables.Proofs.Coerce.SizeOrder — sizes in bytes against the numbers that are written.

  A value that is converted denotes one number (`Denotes`). The digits that are looked at denote this number with the
  rest rounded towards zero (`amount_cut_eq_floor`), and both roundings keep the order, so a larger number is not
  converted to fewer bytes however the two are written (`bytes_mono`). The sign does not change the magnitude, so a
  minus in front of a value without a sign gives the negative bytes; but a minus counts as the sign of the digits only
  right in front of them, so where the value begins with a blank there is no size any more (`sizeToBytes_negate`,
  `sizeToBytes_negate_blank`). An integer is as many units exactly, so it is converted as 1024 times the integer in
  the next smaller unit (`sizeToBytes_next`).

  `sizes_keep_order_and_sign`: the three laws. `minus_before_blank`: why the second one has a condition.
-/
import HostTables.Proofs.Coerce.SizeOutcomes

namespace HostTables

namespace SizeLiteral

/-! ## Order -/

/-- The number that is written, with its sign. -/
def number (size : SizeLiteral) : ℚ := if size.negative then -size.amount else size.amount

/-- The value is a numeral of the number, with blanks around it. -/
def Denotes (value : Text) (x : ℚ) : Prop := ∃ size : SizeLiteral, size.SpelledIn value ∧ size.number = x

variable {size other : SizeLiteral} {unit : SizeUnit}

theorem exactBytes_eq (size : SizeLiteral) (unit : SizeUnit) :
    size.exactBytes unit = size.number * 1024 ^ unit.power := by
  unfold exactBytes number exactMagnitude
  split
  · exact (neg_mul _ _).symm
  · rfl

/-- The digits that are looked at denote the amount, rounded down in their last place. -/
theorem amount_cut_eq_floor (hnumeric : size.Numeric) :
    size.cut.amount = ⌊size.amount * 10 ^ fractionLimit⌋ / 10 ^ fractionLimit := by
  have hscale : (0 : ℚ) < 10 ^ fractionLimit := by positivity
  rw [eq_div_iff hscale.ne']
  rcases Nat.lt_or_ge fractionLimit size.fraction.length with h | h
  · obtain ⟨hle, hlt⟩ := amount_cut hnumeric h
    have hkept : size.cut.amount * 10 ^ fractionLimit = (Decimal.value (size.whole ++ size.keptFraction) : ℤ) := by
      rw [cut_amount h, div_mul_cancel₀ _ hscale.ne']
      rfl
    have hfloor : ⌊size.amount * 10 ^ fractionLimit⌋ = Decimal.value (size.whole ++ size.keptFraction) := by
      rw [Int.floor_eq_iff, ← hkept]
      refine ⟨mul_le_mul_of_nonneg_right hle hscale.le, ?_⟩
      calc size.amount * 10 ^ fractionLimit
          < (size.cut.amount + 1 / 10 ^ fractionLimit) * 10 ^ fractionLimit := mul_lt_mul_of_pos_right hlt hscale
        _ = size.cut.amount * 10 ^ fractionLimit + 1 := by field_simp
    rw [hfloor, hkept]
  · have hsteps : size.amount * 10 ^ fractionLimit =
        ((Decimal.value (size.whole ++ size.fraction) * 10 ^ (fractionLimit - size.fraction.length) : ℤ) : ℚ) := by
      rw [amount, ← Nat.add_sub_of_le h, pow_add, Nat.add_sub_cancel_left]
      push_cast
      field_simp
    rw [cut_eq_self h, hsteps, Int.floor_intCast]

theorem amount_cut_mono (hsize : size.Numeric) (hother : other.Numeric) (h : size.amount ≤ other.amount) :
    size.cut.amount ≤ other.cut.amount := by
  rw [amount_cut_eq_floor hsize, amount_cut_eq_floor hother]
  gcongr

theorem amount_cut_of_zero (hnumeric : size.Numeric) (h : size.amount = 0) : size.cut.amount = 0 := by
  rw [amount_cut_eq_floor hnumeric, h]
  simp

/-- Cutting leaves the sign as it is. -/
theorem number_cases (size : SizeLiteral) : size.number = size.amount ∧ size.cut.number = size.cut.amount ∨
    size.number = -size.amount ∧ size.cut.number = -size.cut.amount := by
  obtain ⟨negative, whole, fraction⟩ := size
  cases negative with
  | false => exact Or.inl ⟨rfl, rfl⟩
  | true => exact Or.inr ⟨rfl, rfl⟩

/-- Cutting rounds towards zero on either side, which keeps the order across zero as well. -/
theorem number_cut_mono (hsize : size.Numeric) (hother : other.Numeric) (h : size.number ≤ other.number) :
    size.cut.number ≤ other.cut.number := by
  have hnonneg := size.amount_nonneg
  have hotherNonneg := other.amount_nonneg
  have hcutNonneg := size.cut.amount_nonneg
  have hotherCutNonneg := other.cut.amount_nonneg
  rcases number_cases size with ⟨hnumber, hcut⟩ | ⟨hnumber, hcut⟩
  · rcases number_cases other with ⟨hotherNumber, hotherCut⟩ | ⟨hotherNumber, hotherCut⟩
    · rw [hcut, hotherCut]
      exact amount_cut_mono hsize hother (by rwa [← hnumber, ← hotherNumber])
    · -- Above zero and not above a number below zero: both are zero.
      have hzero : size.amount = 0 := by linarith
      have hotherZero : other.amount = 0 := by linarith
      rw [hcut, hotherCut, amount_cut_of_zero hsize hzero, amount_cut_of_zero hother hotherZero, neg_zero]
  · rcases number_cases other with ⟨hotherNumber, hotherCut⟩ | ⟨hotherNumber, hotherCut⟩
    · linarith
    · rw [hcut, hotherCut]
      exact neg_le_neg (amount_cut_mono hother hsize (by linarith))

theorem bytes_mono (hsize : size.Numeric) (hother : other.Numeric) (h : size.number ≤ other.number) (unit : SizeUnit) :
    size.bytes unit ≤ other.bytes unit := by
  have hexact : size.cut.exactBytes unit ≤ other.cut.exactBytes unit := by
    rw [exactBytes_eq, exactBytes_eq]
    exact mul_le_mul_of_nonneg_right (number_cut_mono hsize hother h) (by positivity)
  exact roundsAway_mono hexact (roundsAway_cut_iff.mpr rfl) (roundsAway_cut_iff.mpr rfl)

/-! ## Sign -/

/-- The size with a minus. -/
def negated (size : SizeLiteral) : SizeLiteral := { size with negative := true }

variable {t value : Text}

theorem bytes_negated (h : size.negative = false) (unit : SizeUnit) : size.negated.bytes unit = -size.bytes unit := by
  rw [bytes, bytes, h, if_neg Bool.false_ne_true]
  rfl

theorem spells_negated (h : size.Spells t) (hplus : '+' ∉ t) (hminus : '-' ∉ t) :
    size.negative = false ∧ size.negated.Spells ('-' :: t) := by
  obtain ⟨negative, whole, fraction⟩ := size
  cases h with
  | parts hnumeric hsign htail =>
    cases hsign with
    | minus => exact absurd List.mem_cons_self hminus
    | plus => exact absurd List.mem_cons_self hplus
    | none =>
      have hdigits : Numeric ⟨true, whole, fraction⟩ := hnumeric
      exact ⟨rfl, .parts hdigits .minus htail⟩

/-- Digits follow the minus at once. -/
theorem ne_nil_of_spells_minus {digits : Text} (h : size.Spells ('-' :: digits)) : digits ≠ [] := by
  obtain ⟨negative, whole, fraction⟩ := size
  generalize ht : '-' :: digits = t at h
  cases h with
  | @parts sign tail hnumeric hsign htail =>
    cases hsign with
    | minus =>
      rintro rfl
      have hnil : whole ++ tail = [] := (List.cons.inj ht).2.symm
      obtain ⟨rfl, rfl⟩ := List.append_eq_nil_iff.mp hnil
      cases htail
      exact hnumeric.1 rfl
    | plus => cases ht
    | none => exact absurd (hnumeric.unsigned htail '-' (ht ▸ List.mem_cons_self)) (by decide)

/-- Between the minus and the digits there is no blank. -/
theorem not_spelledIn_of_blank {c : Char} (hc : Text.isBlank c = true) (rest : Text) :
    ¬ size.SpelledIn ('-' :: c :: rest) := by
  rintro ⟨t, ht, hpadded⟩
  obtain ⟨right, hvalue, hright⟩ := hpadded.of_head? (by simp [show Text.isBlank '-' = false from rfl])
  cases t with
  | nil => exact absurd (hright '-' (by rw [← List.nil_append right, ← hvalue]; exact List.mem_cons_self)) (by decide)
  | cons d digits =>
    obtain ⟨rfl, hrest⟩ := List.cons.inj hvalue
    cases digits with
    | nil => exact ne_nil_of_spells_minus ht rfl
    | cons e digits =>
      have hsolid := solid_of_spells ht e (List.mem_cons_of_mem _ List.mem_cons_self)
      rw [← (List.cons.inj hrest).1, hc] at hsolid
      cases hsolid

end SizeLiteral

variable {value unit : Text} {word : Signed 64}

theorem sizeToBytes_negate (h : Coerce.sizeToBytes value unit = .ok word) (hplus : '+' ∉ value) (hminus : '-' ∉ value)
    (hfront : ∀ c ∈ value.head?, Text.isBlank c = false) :
    ∃ negated : Signed 64, Coerce.sizeToBytes ('-' :: value) unit = .ok negated ∧ negated.val = -word.val := by
  obtain ⟨named, size, hunit, ⟨t, ht, hpadded⟩, hword⟩ := exists_of_sizeToBytes_ok h
  obtain ⟨right, rfl, hright⟩ := hpadded.of_head? hfront
  rw [List.mem_append, not_or] at hplus hminus
  obtain ⟨hsign, hspells⟩ := SizeLiteral.spells_negated ht hplus.1 hminus.1
  have hvalue : size.negated.SpelledIn ('-' :: (t ++ right)) := ⟨_, hspells, [], right, rfl, hright⟩
  have hnonneg : 0 ≤ word.val := by
    rw [hword, SizeLiteral.bytes, hsign]
    exact Int.natCast_nonneg _
  have hrange : Signed.InRange 64 (-word.val) := by
    have hmax : word.val < 2 ^ 63 := word.lt_max
    exact ⟨by omega, by omega⟩
  obtain ⟨negated, hnegated⟩ := Signed.inRange_iff.mp hrange
  refine ⟨negated, sizeToBytes_of_inRange hunit hvalue ?_, hnegated⟩
  rw [hnegated, hword, SizeLiteral.bytes_negated hsign]

theorem sizeToBytes_negate_blank (h : Coerce.sizeToBytes value unit = .ok word)
    (hfront : ∃ c ∈ value.head?, Text.isBlank c = true) :
    Coerce.sizeToBytes ('-' :: value) unit = .error (.invalidSize (Text.trim ('-' :: value ++ ' ' :: unit))) := by
  obtain ⟨named, _, hunit, -⟩ := exists_of_sizeToBytes_ok h
  obtain ⟨c, hc, hblank⟩ := hfront
  cases value with
  | nil => cases hc
  | cons d rest =>
    cases hc
    exact sizeToBytes_of_unspelled hunit fun size => SizeLiteral.not_spelledIn_of_blank hblank rest

/-! ## Units -/

/-- The units in order, each in front of the next larger one. -/
inductive SizeUnit.Next : SizeUnit → SizeUnit → Prop
  | kilobyte : Next .byte .kilobyte
  | megabyte : Next .kilobyte .megabyte
  | gigabyte : Next .megabyte .gigabyte
  | terabyte : Next .gigabyte .terabyte
  | petabyte : Next .terabyte .petabyte

theorem SizeUnit.next_factor {smaller larger : SizeUnit} (h : Next smaller larger) :
    larger.factor = 1024 * smaller.factor := by
  cases h <;> decide

/-- As many of the larger units are 1024 times as many of the smaller ones. -/
theorem sizeToBytes_next {smaller larger : SizeUnit} (hnext : SizeUnit.Next smaller larger)
    {t many unit unitMany : Text} {n : Int} (ht : Decimal.Denotes t n) (hmany : Decimal.Denotes many (1024 * n))
    (hunit : larger.NamedIn unit) (hunitMany : smaller.NamedIn unitMany) :
    (∃ word, Coerce.sizeToBytes t unit = .ok word ∧ Coerce.sizeToBytes many unitMany = .ok word) ∨
    ∃ size sizeMany, Coerce.sizeToBytes t unit = .error (.outOfRange size) ∧
      Coerce.sizeToBytes many unitMany = .error (.outOfRange sizeMany) := by
  obtain ⟨size, hspells, hbytes⟩ := SizeLiteral.exists_spells_of_denotes ht
  obtain ⟨sizeMany, hspellsMany, hbytesMany⟩ := SizeLiteral.exists_spells_of_denotes hmany
  have hvalue := SizeLiteral.spelledIn_of_spells hspells
  have hvalueMany := SizeLiteral.spelledIn_of_spells hspellsMany
  have hsame : sizeMany.bytes smaller = size.bytes larger := by
    rw [hbytes, hbytesMany, SizeUnit.next_factor hnext]
    push_cast
    ring
  by_cases hrange : Signed.InRange 64 (size.bytes larger)
  · obtain ⟨word, hword⟩ := Signed.inRange_iff.mp hrange
    exact Or.inl ⟨word, sizeToBytes_of_inRange hunit hvalue hword,
      sizeToBytes_of_inRange hunitMany hvalueMany (hword.trans hsame.symm)⟩
  · exact Or.inr ⟨_, _, sizeToBytes_of_not_inRange hunit hvalue hrange,
      sizeToBytes_of_not_inRange hunitMany hvalueMany (hsame ▸ hrange)⟩

/-! ## All of it -/

/-- A value that is converted is a numeral of one number. -/
theorem existsUnique_denotes (h : Coerce.sizeToBytes value unit = .ok word) : ∃! x, SizeLiteral.Denotes value x := by
  obtain ⟨named, size, -, hvalue, -⟩ := exists_of_sizeToBytes_ok h
  refine ⟨size.number, ⟨size, hvalue, rfl⟩, ?_⟩
  rintro x ⟨other, hother, rfl⟩
  rw [hother.unique hvalue]

theorem sizeToBytes_mono {other : Text} {wordOther : Signed 64} {x y : ℚ}
    (h : Coerce.sizeToBytes value unit = .ok word) (hother : Coerce.sizeToBytes other unit = .ok wordOther)
    (hx : SizeLiteral.Denotes value x) (hy : SizeLiteral.Denotes other y) (hle : x ≤ y) : word.val ≤ wordOther.val := by
  obtain ⟨size, hvalue, rfl⟩ := hx
  obtain ⟨sizeOther, hvalueOther, rfl⟩ := hy
  obtain ⟨named, read, hunit, hread, hword⟩ := exists_of_sizeToBytes_ok h
  obtain ⟨namedOther, readOther, hunitOther, hreadOther, hwordOther⟩ := exists_of_sizeToBytes_ok hother
  rw [hword, hwordOther, hread.unique hvalue, hreadOther.unique hvalueOther, hunitOther.unique hunit]
  exact SizeLiteral.bytes_mono hvalue.numeric hvalueOther.numeric hle named

/-- Of two values that are converted in one unit, the one with the larger number is not converted to fewer bytes. A
    minus in front of a value without a sign gives the negative bytes, unless the value begins with a blank: then
    there is no size. An integer in a unit is converted as 1024 times the integer in the next smaller unit, and both
    are out of range together. -/
theorem sizes_keep_order_and_sign :
    (∀ value unit word, Coerce.sizeToBytes value unit = .ok word → ∃! x, SizeLiteral.Denotes value x) ∧
    (∀ value other unit word wordOther, Coerce.sizeToBytes value unit = .ok word →
      Coerce.sizeToBytes other unit = .ok wordOther → ∀ x y, SizeLiteral.Denotes value x →
      SizeLiteral.Denotes other y → x ≤ y → word.val ≤ wordOther.val) ∧
    (∀ value unit word, Coerce.sizeToBytes value unit = .ok word → '+' ∉ value → '-' ∉ value →
      ((∀ c ∈ value.head?, Text.isBlank c = false) →
        ∃ negated : Signed 64, Coerce.sizeToBytes ('-' :: value) unit = .ok negated ∧ negated.val = -word.val) ∧
      ((∃ c ∈ value.head?, Text.isBlank c = true) → Coerce.sizeToBytes ('-' :: value) unit =
        .error (.invalidSize (Text.trim ('-' :: value ++ ' ' :: unit))))) ∧
    ∀ smaller larger, SizeUnit.Next smaller larger → ∀ t many unit unitMany : Text, ∀ n : Int,
      Decimal.Denotes t n → Decimal.Denotes many (1024 * n) → larger.NamedIn unit → smaller.NamedIn unitMany →
      (∃ word, Coerce.sizeToBytes t unit = .ok word ∧ Coerce.sizeToBytes many unitMany = .ok word) ∨
      ∃ size sizeMany, Coerce.sizeToBytes t unit = .error (.outOfRange size) ∧
        Coerce.sizeToBytes many unitMany = .error (.outOfRange sizeMany) := by
  refine ⟨fun _ _ _ h => existsUnique_denotes h, ?_, ?_, ?_⟩
  · intro value other unit word wordOther h hother x y hx hy hle
    exact sizeToBytes_mono h hother hx hy hle
  · intro value unit word h hplus hminus
    exact ⟨sizeToBytes_negate h hplus hminus, sizeToBytes_negate_blank h⟩
  · intro smaller larger hnext t many unit unitMany n ht hmany hunit hunitMany
    exact sizeToBytes_next hnext ht hmany hunit hunitMany

/-- Two values on both sides of zero, a value with a blank behind it, and an integer that is out of range. -/
theorem sizes_in_order :
    (Coerce.sizeToBytes "-0.0005".toList "kB".toList = .ok ⟨-1, by decide, by decide⟩ ∧
      Coerce.sizeToBytes "+.0015".toList "kB".toList = .ok ⟨2, by decide, by decide⟩ ∧ (-1 : Int) ≤ 2) ∧
    (∃ negated : Signed 64, Coerce.sizeToBytes "-1.5 ".toList "MB".toList = .ok negated ∧ negated.val = -1572864) ∧
    ∃ size sizeMany, Coerce.sizeToBytes "-8193".toList " pb".toList = .error (.outOfRange size) ∧
      Coerce.sizeToBytes "-8389632".toList "TB".toList = .error (.outOfRange sizeMany) := by
  obtain ⟨-, ordered, negates, units⟩ := sizes_keep_order_and_sign
  refine ⟨?_, ?_, ?_⟩
  · have hbelow : Coerce.sizeToBytes "-0.0005".toList "kB".toList = .ok ⟨-1, by decide, by decide⟩ := by decide +kernel
    have habove : Coerce.sizeToBytes "+.0015".toList "kB".toList = .ok ⟨2, by decide, by decide⟩ := by decide +kernel
    have hbelowSpelled : SizeLiteral.SpelledIn ⟨true, ['0'], "0005".toList⟩ "-0.0005".toList :=
      SizeLiteral.spelledIn_iff.mpr (by decide)
    have haboveSpelled : SizeLiteral.SpelledIn ⟨false, [], "0015".toList⟩ "+.0015".toList :=
      SizeLiteral.spelledIn_iff.mpr (by decide)
    have hle : SizeLiteral.number ⟨true, ['0'], "0005".toList⟩ ≤ SizeLiteral.number ⟨false, [], "0015".toList⟩ :=
      (neg_nonpos.mpr (SizeLiteral.amount_nonneg _)).trans (SizeLiteral.amount_nonneg _)
    exact ⟨hbelow, habove, ordered _ _ _ _ _ hbelow habove _ _ ⟨_, hbelowSpelled, rfl⟩ ⟨_, haboveSpelled, rfl⟩ hle⟩
  · have hvalue : Coerce.sizeToBytes "1.5 ".toList "MB".toList = .ok ⟨1572864, by decide, by decide⟩ := by
      decide +kernel
    have hfront : ∀ c ∈ "1.5 ".toList.head?, Text.isBlank c = false := by
      intro c hc
      obtain rfl : '1' = c := Option.some.inj hc
      rfl
    exact (negates _ _ _ hvalue (by decide) (by decide)).1 hfront
  · have hdenotes : Decimal.Denotes "-8193".toList (-8193) := Decimal.integer?_eq_some_iff.mp (by decide)
    have hmany : Decimal.Denotes "-8389632".toList (1024 * -8193) := Decimal.integer?_eq_some_iff.mp (by decide)
    have hunit : SizeUnit.petabyte.NamedIn " pb".toList := SizeUnit.namedIn_iff.mpr (by decide)
    have hunitMany : SizeUnit.terabyte.NamedIn "TB".toList := SizeUnit.namedIn_iff.mpr (by decide)
    have hlarge : Coerce.sizeToBytes "-8193".toList " pb".toList = .error (.outOfRange "-8193  pb".toList) := by
      decide +kernel
    refine (units _ _ .petabyte _ _ _ _ _ hdenotes hmany hunit hunitMany).resolve_left ?_
    rintro ⟨word, hword, -⟩
    rw [hlarge] at hword
    cases hword

/-- Not every value without a sign can be negated: a minus in front of a blank is no sign of what follows the blank. -/
theorem minus_before_blank :
    ¬ ∀ value unit word, Coerce.sizeToBytes value unit = .ok word → '+' ∉ value → '-' ∉ value →
      ∃ negated : Signed 64, Coerce.sizeToBytes ('-' :: value) unit = .ok negated ∧ negated.val = -word.val := by
  intro hall
  have hfive : Coerce.sizeToBytes " 5".toList [] = .ok ⟨5, by decide, by decide⟩ := by decide +kernel
  have hinvalid : Coerce.sizeToBytes "- 5".toList [] = .error (.invalidSize "- 5".toList) := by decide +kernel
  obtain ⟨negated, hnegated, -⟩ := hall _ _ _ hfive (by decide) (by decide)
  have hsame : Coerce.sizeToBytes "- 5".toList [] = .ok negated := hnegated
  rw [hinvalid] at hsame
  cases hsame

end HostTables
