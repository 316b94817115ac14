/-
  HostTables.Proofs.Coerce.SizeWords — sizes in bytes, computed with words of 128 bits.

  `Coerce.sizeToBytes` computes with integers and characters. A machine has words and bytes: a product, a
  sum, a power or a negation may leave the words, a divisor may be zero, and a text may be cut inside a
  character. `sizeInWords` is the same conversion with all of that in it: each of these stops the run
  with a `Halt` of its own, and an error is reported only where the conversion tests for one, which is where it reads
  the whole digits, at the product with the unit, at the sum with the bytes of the fraction and at the end.

  Nothing else stops a run (`sizeInWords_eq`). The texts are cut behind an ASCII character or behind digits
  (`splitSignInBytes_eq`), the kept fraction times the largest unit has 110 bits (`fractionInWords_ok`), and
  where a test fails the integer is out of 64 bits in any case (`not_inRange_bytes`).
-/
import HostTables.Proofs.Coerce.Integers
import HostTables.Proofs.Coerce.SizeRounding
import HostTables.Proofs.Outcome
import HostTables.Proofs.Text.Utf8

namespace HostTables

/-! ## Words and bytes -/

/-- Why a run stops: an error is reported, or an operation has no result. -/
inductive Halt where
  | refused (e : CoerceError)
  | overflow
  | divisionByZero
  | insideCharacter
  deriving DecidableEq, Repr

abbrev Run := Except Halt

abbrev Word := Signed 128

namespace Word

/-- The word of an integer that is in range, otherwise the run stops. -/
def within (width : Nat) (halt : Halt) (n : Int) : Run (Signed width) :=
  match Signed.ofInt? width n with
  | some word => .ok word
  | none => .error halt

def mul (a b : Word) : Run Word := within 128 .overflow (a.val * b.val)

def add (a b : Word) : Run Word := within 128 .overflow (a.val + b.val)

def neg (a : Word) : Run Word := within 128 .overflow (-a.val)

def pow (a : Word) (exponent : Nat) : Run Word := within 128 .overflow (a.val ^ exponent)

/-- The quotient, rounded towards zero. -/
def div (a b : Word) : Run Word :=
  if b.val = 0 then .error .divisionByZero else within 128 .overflow (a.val.tdiv b.val)

def zero : Word := ⟨0, by decide, by decide⟩

def two : Word := ⟨2, by decide, by decide⟩

def ten : Word := ⟨10, by decide, by decide⟩

/-- The bytes of a unit. -/
def ofUnit (unit : SizeUnit) : Word := ⟨unit.factor, by cases unit <;> decide, by cases unit <;> decide⟩

/-- The word of a numeral. -/
def read (e : CoerceError) (t : Text) : Run Word := (Coerce.toNumeric t).mapError fun _ => .refused e

/-- The word of some digits, possibly none. -/
def readWhole (e : CoerceError) (t : Text) : Run Word := if t = [] then .ok zero else read e t

def withSign (negative : Bool) (a : Word) : Run Word := if negative then neg a else .ok a

end Word

namespace Text

def byteLength (t : Text) : Nat := (Utf8.encode t).length

/-- The text before and behind some bytes, which have to end with a character. -/
def cutAt (offset : Nat) (t : Text) : Run (Text × Text) :=
  if byteLength t < offset then .error .insideCharacter
  else match Utf8.decode? ((Utf8.encode t).take offset), Utf8.decode? ((Utf8.encode t).drop offset) with
    | .ok front, .ok back => .ok (front, back)
    | _, _ => .error .insideCharacter

end Text

/-! ## The conversion -/

namespace SizeLiteral

/-- Whether the first byte is a minus, and the text without the sign. -/
def splitSignInBytes (t : Text) : Run (Bool × Text) :=
  if (Utf8.encode t).head? = some (UInt8.ofNat '-'.toNat) then do
    let (_, digits) ← Text.cutAt 1 t
    return (true, digits)
  else if (Utf8.encode t).head? = some (UInt8.ofNat '+'.toNat) then do
    let (_, digits) ← Text.cutAt 1 t
    return (false, digits)
  else return (false, t)

/-- The byte is one of an ASCII digit. -/
def isDigitByte (b : UInt8) : Bool := decide (0x30 ≤ b.toNat) && decide (b.toNat ≤ 0x39)

/-- The size that the bytes of a text spell. -/
def readInBytes (e : CoerceError) (t : Text) : Run SizeLiteral := do
  let (negative, digits) ← splitSignInBytes t
  let (whole, fraction) := (Text.splitOnce? '.' digits).getD (digits, [])
  if whole = [] ∧ fraction = [] then .error (.refused e)
  else if (Utf8.encode whole ++ Utf8.encode fraction).all isDigitByte = false then .error (.refused e)
  else .ok ⟨negative, whole, fraction⟩

/-- The bytes of a fraction, rounded half up. Nothing but the reading of its digits is tested here. -/
def fractionInWords (e : CoerceError) (unit : Word) (fraction : Text) : Run Word := do
  let (kept, _) ← Text.cutAt (min (Text.byteLength fraction) 18) fraction
  if kept = [] then return Word.zero
  else
    let scale ← Word.pow Word.ten (Text.byteLength kept)
    let numerator ← Word.read e kept
    let product ← Word.mul numerator unit
    let half ← Word.div scale Word.two
    let sum ← Word.add product half
    Word.div sum scale

/-- The bytes of a size. -/
def bytesInWords (invalid outOfRange : CoerceError) (unit : Word) (size : SizeLiteral) : Run (Signed 64) := do
  let whole ← Word.readWhole outOfRange size.whole
  let fraction ← fractionInWords invalid unit size.fraction
  let product ← Word.within 128 (.refused outOfRange) (whole.val * unit.val)
  let magnitude ← Word.within 128 (.refused outOfRange) (product.val + fraction.val)
  let bytes ← Word.withSign size.negative magnitude
  Word.within 64 (.refused outOfRange) bytes.val

end SizeLiteral

/-- The byte count of `value` in `unit`. -/
def Coerce.sizeInWords (value unit : Text) : Run (Signed 64) :=
  match SizeUnit.ofName? (Text.trim unit) with
  | none => .error (.refused (.unknownUnit (Text.trim unit)))
  | some named => do
    let invalid := CoerceError.invalidSize (Text.trim (value ++ ' ' :: unit))
    let outOfRange := CoerceError.outOfRange (Text.trim (Text.trim value ++ ' ' :: unit))
    let size ← SizeLiteral.readInBytes invalid (Text.trim value)
    SizeLiteral.bytesInWords invalid outOfRange (Word.ofUnit named) size

/-! ## Operations -/

namespace Word

variable {width : Nat} {halt : Halt} {n : Int}

theorem within_of_inRange (h : Signed.InRange width n) : ∃ word, within width halt n = .ok word ∧ word.val = n := by
  obtain ⟨word, hword⟩ := Signed.inRange_iff.mp h
  refine ⟨word, ?_, hword⟩
  rw [within, Signed.ofInt?_eq_some_iff.mpr hword]

theorem within_of_not_inRange (h : ¬ Signed.InRange width n) : within width halt n = .error halt := by
  rw [within, Signed.ofInt?_eq_none_iff.mpr h]

/-- A number that is not negative is in the words, or it is too large for them. -/
theorem within_nat (halt : Halt) (n : Nat) :
    (∃ word, within 128 halt n = .ok word ∧ word.val = n) ∨ 2 ^ 127 ≤ n ∧ within 128 halt n = .error halt := by
  by_cases h : Signed.InRange 128 n
  · exact Or.inl (within_of_inRange h)
  · refine Or.inr ⟨?_, within_of_not_inRange h⟩
    unfold Signed.InRange at h
    omega

theorem within_small {n : Nat} (h : n < 2 ^ 127) : ∃ word, within 128 halt n = .ok word ∧ word.val = n :=
  (within_nat halt n).resolve_right fun hlarge => absurd h (Nat.not_lt.mpr hlarge.1)

variable {a b : Word} {m k : Nat}

theorem mul_nat (ha : a.val = m) (hb : b.val = k) (h : m * k < 2 ^ 127) :
    ∃ word, mul a b = .ok word ∧ word.val = (m * k : ℕ) := by
  rw [mul, ha, hb, ← Nat.cast_mul]
  exact within_small h

theorem add_nat (ha : a.val = m) (hb : b.val = k) (h : m + k < 2 ^ 127) :
    ∃ word, add a b = .ok word ∧ word.val = (m + k : ℕ) := by
  rw [add, ha, hb, ← Nat.cast_add]
  exact within_small h

theorem pow_nat (ha : a.val = m) (h : m ^ k < 2 ^ 127) : ∃ word, pow a k = .ok word ∧ word.val = (m ^ k : ℕ) := by
  rw [pow, ha, ← Nat.cast_pow]
  exact within_small h

theorem div_nat (ha : a.val = m) (hb : b.val = k) (hk : 0 < k) :
    ∃ word, div a b = .ok word ∧ word.val = (m / k : ℕ) := by
  have hlt : m / k < 2 ^ 127 := by
    have hmax : a.val < 2 ^ 127 := a.lt_max
    have hle := Nat.div_le_self m k
    omega
  rw [div, if_neg (by omega), ha, hb, ← Int.ofNat_tdiv]
  exact within_small hlt

/-- Only the smallest word has no negative, and it is below zero. -/
theorem neg_nat (ha : a.val = m) : ∃ word, neg a = .ok word ∧ word.val = -(m : Int) := by
  have hmax : a.val < 2 ^ 127 := a.lt_max
  rw [neg, ha]
  exact within_of_inRange ⟨by omega, by omega⟩

/-- Digits are read as their number, which may be too large. -/
theorem read_of_digits {t : Text} (e : CoerceError) (hne : t ≠ []) (ht : Decimal.allDigits t = true) :
    read e t = within 128 (.refused e) (Decimal.value t) := by
  have hdenotes : Decimal.Denotes t (Decimal.value t) := .bare ⟨hne, List.all_eq_true.mp ht, rfl⟩
  rw [read, Coerce.toNumeric, Coerce.signed, Decimal.integer?_eq_some_iff.mpr hdenotes, Option.bind_some, within]
  cases Signed.ofInt? 128 (Decimal.value t) <;> rfl

theorem readWhole_of_digits {t : Text} (e : CoerceError) (ht : Decimal.allDigits t = true) :
    readWhole e t = within 128 (.refused e) (Decimal.value t) := by
  unfold readWhole
  split
  · rename_i hnil
    rw [hnil]
    rfl
  · rename_i hne
    exact read_of_digits e hne ht

theorem withSign_nat (negative : Bool) (ha : a.val = m) :
    ∃ word, withSign negative a = .ok word ∧ word.val = if negative then -(m : Int) else m := by
  cases negative with
  | true => exact neg_nat ha
  | false => exact ⟨a, rfl, ha⟩

end Word

namespace Text

/-- A text is cut where the bytes of its front end. -/
theorem cutAt_append (front back : Text) : cutAt (byteLength front) (front ++ back) = .ok (front, back) := by
  have hle : ¬ byteLength (front ++ back) < byteLength front := by
    rw [byteLength, byteLength, Utf8.encode_append, List.length_append]
    omega
  rw [cutAt, if_neg hle, Utf8.encode_append, byteLength, List.take_left, List.drop_left, Utf8.decode?_encode,
    Utf8.decode?_encode]

/-- The first byte is that of an ASCII character if the first character is this one. -/
theorem head?_encode_iff {a : Char} (ha : a.toNat < 0x80) (t : Text) :
    (Utf8.encode t).head? = some (UInt8.ofNat a.toNat) ↔ t.head? = some a := by
  cases t with
  | nil => simp [Utf8.encode]
  | cons c rest =>
    rw [Utf8.encode_cons, List.head?_append_of_ne_nil _ String.utf8EncodeChar_ne_nil, List.head?_cons,
      Option.some.injEq]
    constructor
    · intro h
      exact (Utf8.ascii_mem_encodeChar ha).mp (List.mem_of_head? h)
    · rintro rfl
      rw [Utf8.encodeChar_of_ascii ha]
      rfl

theorem byteLength_of_digits {t : Text} (h : Decimal.allDigits t = true) : byteLength t = t.length := by
  induction t with
  | nil => rfl
  | cons c rest ih =>
    simp only [Decimal.allDigits, List.all_cons, Bool.and_eq_true] at h
    have hascii : c.toNat < 0x80 := by
      have hrange := Char.isDigit_iff_toNat.mp h.1
      have hnine : '9'.toNat < 0x80 := by decide
      omega
    have hrest : byteLength rest = rest.length := ih h.2
    rw [byteLength, Utf8.encode_cons, Utf8.encodeChar_of_ascii hascii, List.length_append, List.length_singleton,
      List.length_cons, ← hrest, byteLength, Nat.add_comm]

end Text

/-! ## Reading -/

namespace SizeLiteral

theorem splitSignInBytes_eq (t : Text) : splitSignInBytes t = .ok (Decimal.splitSign t) := by
  have hminus := Text.head?_encode_iff (show '-'.toNat < 0x80 by decide) t
  have hplus := Text.head?_encode_iff (show '+'.toNat < 0x80 by decide) t
  unfold Decimal.splitSign
  split
  · rename_i rest
    have hcut : Text.cutAt 1 ('-' :: rest) = .ok (['-'], rest) := Text.cutAt_append ['-'] rest
    rw [splitSignInBytes, if_pos (hminus.mpr rfl), hcut, ok_bind]
    rfl
  · rename_i rest
    have hcut : Text.cutAt 1 ('+' :: rest) = .ok (['+'], rest) := Text.cutAt_append ['+'] rest
    rw [splitSignInBytes, if_neg (mt hminus.mp (by simp)), if_pos (hplus.mpr rfl), hcut, ok_bind]
    rfl
  · rename_i hnotMinus hnotPlus
    have hhead : ∀ c : Char, (∀ rest, t = c :: rest → False) → t.head? ≠ some c := by
      intro c h hc
      cases t with
      | nil => cases hc
      | cons d rest => exact h rest (by rw [Option.some.inj hc])
    rw [splitSignInBytes, if_neg (mt hminus.mp (hhead _ hnotMinus)), if_neg (mt hplus.mp (hhead _ hnotPlus))]
    rfl

theorem isDigitByte_char (c : Char) : (String.utf8EncodeChar c).all isDigitByte = c.isDigit := by
  have hzero : '0'.toNat = 0x30 := rfl
  have hnine : '9'.toNat = 0x39 := rfl
  rw [Bool.eq_iff_iff, List.all_eq_true, Char.isDigit_iff_toNat]
  simp only [isDigitByte, Bool.and_eq_true, decide_eq_true_eq]
  rcases Nat.lt_or_ge c.toNat 0x80 with hc | hc
  · have hbyte : (UInt8.ofNat c.toNat).toNat = c.toNat := UInt8.toNat_ofNat_of_lt' (hc.trans (by decide))
    simp only [Utf8.encodeChar_of_ascii hc, List.mem_singleton, forall_eq, hbyte]
    omega
  · constructor
    · intro h
      obtain ⟨b, hb⟩ := List.exists_mem_of_ne_nil _ (String.utf8EncodeChar_ne_nil (c := c))
      have hle := Utf8.le_of_mem_encodeChar hc hb
      have hdigit := h b hb
      omega
    · omega

theorem all_isDigitByte (t : Text) : (Utf8.encode t).all isDigitByte = Decimal.allDigits t := by
  induction t with
  | nil => rfl
  | cons c rest ih =>
    rw [Utf8.encode_cons, List.all_append, ih, isDigitByte_char]
    rfl

/-- The bytes spell the size that the characters do. -/
theorem readInBytes_eq (e : CoerceError) (t : Text) :
    readInBytes e t = match ofText? t with
      | some size => .ok size
      | none => .error (.refused e) := by
  have hdigits (whole fraction : Text) :
      (Utf8.encode whole ++ Utf8.encode fraction).all isDigitByte = Decimal.allDigits (whole ++ fraction) := by
    rw [← Utf8.encode_append, all_isDigitByte]
  unfold readInBytes ofText?
  rw [splitSignInBytes_eq, ok_bind]
  simp only [hdigits]
  generalize (Text.splitOnce? '.' (Decimal.splitSign t).2).getD ((Decimal.splitSign t).2, []) = parts
  obtain ⟨whole, fraction⟩ := parts
  by_cases hempty : whole = [] ∧ fraction = []
  · simp [hempty]
  · by_cases hall : Decimal.allDigits (whole ++ fraction) = false
    · simp [hempty, hall]
    · simp [hempty, hall]

/-! ## Computing -/

variable {size : SizeLiteral}

theorem not_inRange_bytes {unit : SizeUnit} (h : 2 ^ 127 ≤ size.magnitude unit) :
    ¬ Signed.InRange 64 (size.bytes unit) := by
  have hmagnitude := natAbs_bytes size unit
  unfold Signed.InRange
  omega

theorem factor_le (unit : SizeUnit) : unit.factor ≤ 2 ^ 50 := by
  cases unit <;> decide

theorem allDigits_keptFraction (hdigits : Decimal.allDigits size.fraction = true) :
    Decimal.allDigits size.keptFraction = true :=
  List.all_eq_true.mpr fun c hc => List.all_eq_true.mp hdigits c (List.mem_of_mem_take hc)

/-- Each digit is one byte, so the kept digits are the kept bytes. -/
theorem cutAt_fraction (hdigits : Decimal.allDigits size.fraction = true) :
    Text.cutAt (min (Text.byteLength size.fraction) 18) size.fraction =
      .ok (size.keptFraction, size.fraction.drop 18) := by
  have hbytes : Text.byteLength size.keptFraction = min (Text.byteLength size.fraction) 18 := by
    rw [Text.byteLength_of_digits (allDigits_keptFraction hdigits), Text.byteLength_of_digits hdigits, keptFraction,
      List.length_take, Nat.min_comm]
    rfl
  have happend : size.keptFraction ++ size.fraction.drop 18 = size.fraction := List.take_append_drop 18 _
  rw [← hbytes, ← congrArg (Text.cutAt _) happend]
  exact Text.cutAt_append _ _

/-- With the digits that are kept nothing leaves the words. -/
theorem fractionInWords_ok (hdigits : Decimal.allDigits size.fraction = true) (e : CoerceError) (unit : SizeUnit) :
    ∃ word, fractionInWords e (Word.ofUnit unit) size.fraction = .ok word ∧ word.val = size.fractionBytes unit := by
  have hkept := allDigits_keptFraction hdigits
  rw [fractionInWords, cutAt_fraction hdigits, ok_bind]
  dsimp only
  split
  · rename_i hnil
    refine ⟨Word.zero, rfl, ?_⟩
    rw [fractionBytes_of_nil hnil]
    rfl
  · rename_i hne
    have hscaleLe : 10 ^ size.keptFraction.length ≤ 10 ^ 18 :=
      Nat.pow_le_pow_right (by decide) (List.length_take_le 18 size.fraction)
    have hvalueLe : Decimal.value size.keptFraction ≤ 10 ^ 18 := (Decimal.value_lt hkept).le.trans hscaleLe
    have hproductLe : Decimal.value size.keptFraction * unit.factor ≤ 10 ^ 18 * 2 ^ 50 :=
      Nat.mul_le_mul hvalueLe (factor_le unit)
    have hpos : 0 < 10 ^ size.keptFraction.length := Nat.pow_pos (by decide)
    obtain ⟨scale, hpow, hscale⟩ : ∃ word, Word.pow Word.ten size.keptFraction.length = .ok word ∧
        word.val = (10 ^ size.keptFraction.length : ℕ) := Word.pow_nat rfl (by omega)
    obtain ⟨numerator, hread, hnumerator⟩ : ∃ word, Word.within 128 (.refused e) (Decimal.value size.keptFraction) =
        .ok word ∧ word.val = (Decimal.value size.keptFraction : Int) := Word.within_small (by omega)
    obtain ⟨product, hmul, hproduct⟩ := Word.mul_nat (b := Word.ofUnit unit) hnumerator rfl (by omega)
    obtain ⟨half, hhalf, hhalfVal⟩ := Word.div_nat (b := Word.two) (k := 2) hscale rfl (by decide)
    obtain ⟨sum, hadd, hsum⟩ := Word.add_nat hproduct hhalfVal (by omega)
    obtain ⟨quotient, hdiv, hquotient⟩ := Word.div_nat hsum hscale hpos
    refine ⟨quotient, ?_, hquotient⟩
    rw [Text.byteLength_of_digits hkept, hpow, ok_bind, Word.read_of_digits e hne hkept, hread, ok_bind, hmul,
      ok_bind, hhalf, ok_bind, hadd, ok_bind, hdiv]

/-- Of the tests only the last one decides: what fails an earlier one is far out of 64 bits. -/
theorem bytesInWords_eq (hnumeric : size.Numeric) (invalid outOfRange : CoerceError) (unit : SizeUnit) :
    bytesInWords invalid outOfRange (Word.ofUnit unit) size =
      Word.within 64 (.refused outOfRange) (size.bytes unit) := by
  obtain ⟨hwholeDigits, hfractionDigits⟩ := hnumeric.allDigits
  have hwholeLe : Decimal.value size.whole ≤ Decimal.value size.whole * unit.factor :=
    Nat.le_mul_of_pos_right _ (Nat.pow_pos (by decide))
  have hmagnitude : size.magnitude unit = Decimal.value size.whole * unit.factor + size.fractionBytes unit := rfl
  obtain ⟨fraction, hfraction, hfractionVal⟩ := fractionInWords_ok hfractionDigits invalid unit
  rw [bytesInWords, Word.readWhole_of_digits outOfRange hwholeDigits, hfraction]
  rcases Word.within_nat (.refused outOfRange) (Decimal.value size.whole) with
    ⟨whole, hwhole, hwholeVal⟩ | ⟨hlarge, hwhole⟩
  · have hproductVal : whole.val * (Word.ofUnit unit).val = (Decimal.value size.whole * unit.factor : ℕ) := by
      rw [hwholeVal, Nat.cast_mul]
      rfl
    rw [hwhole, ok_bind, ok_bind, hproductVal]
    rcases Word.within_nat (.refused outOfRange) (Decimal.value size.whole * unit.factor) with
      ⟨product, hproduct, hproductVal⟩ | ⟨hlarge, hproduct⟩
    · rw [hproduct, ok_bind, hproductVal, hfractionVal, ← Nat.cast_add, ← hmagnitude]
      rcases Word.within_nat (.refused outOfRange) (size.magnitude unit) with
        ⟨magnitude, hsum, hsumVal⟩ | ⟨hlarge, hsum⟩
      · obtain ⟨signed, hsign, hsignVal⟩ := Word.withSign_nat size.negative hsumVal
        rw [hsum, ok_bind, hsign, ok_bind, hsignVal]
        rfl
      · rw [hsum, error_bind, Word.within_of_not_inRange (not_inRange_bytes hlarge)]
    · rw [hproduct, error_bind, Word.within_of_not_inRange (not_inRange_bytes (by omega))]
  · rw [hwhole, error_bind, Word.within_of_not_inRange (not_inRange_bytes (by omega))]

end SizeLiteral

/-- A run with words ends as the conversion does, and for no other reason. -/
theorem sizeInWords_eq (value unit : Text) :
    Coerce.sizeInWords value unit = (Coerce.sizeToBytes value unit).mapError .refused := by
  unfold Coerce.sizeInWords Coerce.sizeToBytes
  cases SizeUnit.ofName? (Text.trim unit) with
  | none => rfl
  | some named =>
    dsimp only
    rw [SizeLiteral.readInBytes_eq]
    cases hsize : SizeLiteral.ofText? (Text.trim value) with
    | none => rfl
    | some size =>
      have hnumeric := (SizeLiteral.ofText?_eq_some_iff.mp hsize).numeric
      dsimp only
      rw [ok_bind, SizeLiteral.bytesInWords_eq hnumeric, Word.within]
      cases Signed.ofInt? 64 (size.bytes named) <;> rfl

end HostTables
