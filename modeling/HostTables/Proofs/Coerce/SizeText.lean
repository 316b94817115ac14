/-
  HostTables.Proofs.Coerce.SizeText — how sizes are written, and that they are read.

  A size is written with its sign, which may be left out or be a plus where it is not a minus, the digits
  of its whole part, and a point and the digits of its fraction; without a fraction the point may be
  left out (`SizeLiteral.Spells`). A unit has its names in any case (`SizeUnit.Names`). Neither has
  a blank, both are read as what they were written for (`ofText?_of_spells`, `ofName?_of_names`), and nothing
  else is read (`ofText?_eq_some_iff`, `ofName?_eq_some_iff`). So the bytes that a written size is converted
  to are those of the size, if they are in range (`sizeToBytes_eq_ok_iff`).
-/
import HostTables.Coerce.Size
import HostTables.Proofs.Number.Decimal
import HostTables.Proofs.Text.Words

namespace HostTables

/-! ## Units -/

namespace Text

/-- Blanks are no letters. -/
theorem toLower_of_blank {c : Char} (h : isBlank c = true) : c.toLower = c := by
  refine toLower_of_not_upper ?_
  show ¬ (65 ≤ c.toNat ∧ c.toNat ≤ 90)
  simp only [isBlank, blankRanges, List.any_cons, List.any_nil, Bool.or_false, Bool.or_eq_true, Bool.and_eq_true,
    decide_eq_true_eq] at h
  omega

theorem solid_of_lower {t : Text} (h : (lower t).Solid) : t.Solid := by
  intro c hc
  by_cases hblank : isBlank c = true
  · have hlower : isBlank c.toLower = false := h _ (List.mem_map_of_mem hc)
    rwa [toLower_of_blank hblank] at hlower
  · simpa using hblank

end Text

namespace SizeUnit

/-- The names of a unit, in lower case. -/
def names : SizeUnit → List String
  | .byte => ["", "b", "bytes"]
  | .kilobyte => ["kb"]
  | .megabyte => ["mb"]
  | .gigabyte => ["gb"]
  | .terabyte => ["tb"]
  | .petabyte => ["pb"]

/-- A name of the unit, in any case. -/
def Names (unit : SizeUnit) (name : Text) : Prop := ∃ word ∈ unit.names, Text.lower name = word.toList

instance (unit : SizeUnit) (name : Text) : Decidable (unit.Names name) := List.decidableBEx _ _

theorem ofName?_congr {name other : Text} (h : Text.lower name = Text.lower other) : ofName? name = ofName? other := by
  simp only [ofName?, h]

theorem names_read (unit : SizeUnit) : ∀ word ∈ unit.names,
    Text.lower word.toList = word.toList ∧ Text.Solid word.toList ∧ ofName? word.toList = some unit := by
  cases unit <;> decide

variable {unit : SizeUnit} {name : Text}

theorem ofName?_of_names (h : unit.Names name) : ofName? name = some unit := by
  obtain ⟨word, hword, hname⟩ := h
  obtain ⟨hlower, -, hread⟩ := names_read unit word hword
  rw [ofName?_congr (hname.trans hlower.symm), hread]

theorem ofName?_eq_some_iff : ofName? name = some unit ↔ unit.Names name := by
  constructor
  · intro h
    unfold ofName? at h
    dsimp only at h
    split_ifs at h with hbyte hkilo hmega hgiga htera hpeta
    · cases h
      rcases hbyte with hnone | hletter | hword
      · exact ⟨"", by decide, hnone⟩
      · exact ⟨"b", by decide, hletter⟩
      · exact ⟨"bytes", by decide, hword⟩
    · cases h
      exact ⟨"kb", by decide, hkilo⟩
    · cases h
      exact ⟨"mb", by decide, hmega⟩
    · cases h
      exact ⟨"gb", by decide, hgiga⟩
    · cases h
      exact ⟨"tb", by decide, htera⟩
    · cases h
      exact ⟨"pb", by decide, hpeta⟩
  · exact ofName?_of_names

theorem solid_of_names (h : unit.Names name) : name.Solid := by
  obtain ⟨word, hword, hname⟩ := h
  obtain ⟨-, hsolid, -⟩ := names_read unit word hword
  exact Text.solid_of_lower (hname ▸ hsolid)

theorem trim_of_names (h : unit.Names name) : Text.trim name = name := Text.trim_of_solid (solid_of_names h)

end SizeUnit

/-! ## Numerals -/

namespace SizeLiteral

/-- What stands in front of the digits; a plus can be left out. -/
inductive Sign : Bool → Text → Prop
  | minus : Sign true ['-']
  | plus : Sign false ['+']
  | none : Sign false []

/-- What stands behind the whole digits; where there is no fraction the point can be left out. -/
inductive Tail : Text → Text → Prop
  | point (fraction : Text) : Tail fraction ('.' :: fraction)
  | none : Tail [] []

/-- The size has at least one digit, and digits only. -/
def Numeric (size : SizeLiteral) : Prop :=
  size.whole ++ size.fraction ≠ [] ∧ Decimal.allDigits (size.whole ++ size.fraction) = true

instance (size : SizeLiteral) : Decidable size.Numeric := inferInstanceAs (Decidable (_ ∧ _))

/-- The text is a numeral of the size. -/
inductive Spells (size : SizeLiteral) : Text → Prop
  | parts {sign tail : Text} : size.Numeric → Sign size.negative sign → Tail size.fraction tail →
      Spells size (sign ++ (size.whole ++ tail))

variable {size : SizeLiteral} {t : Text}

theorem Spells.numeric (h : size.Spells t) : size.Numeric := by
  cases h with
  | parts hnumeric _ _ => exact hnumeric

theorem Numeric.isDigit (h : size.Numeric) {c : Char} (hc : c ∈ size.whole ++ size.fraction) : c.isDigit = true :=
  List.all_eq_true.mp h.2 c hc

theorem Numeric.allDigits (h : size.Numeric) :
    Decimal.allDigits size.whole = true ∧ Decimal.allDigits size.fraction = true :=
  Bool.and_eq_true_iff.mp (List.all_append.symm.trans h.2)

theorem Numeric.point_not_mem (h : size.Numeric) : '.' ∉ size.whole := by
  intro hm
  have hdigit : '.'.isDigit = true := h.isDigit (List.mem_append_left _ hm)
  cases hdigit

/-- Behind the sign there are digits and perhaps a point. -/
def Unsigned (t : Text) : Prop := ∀ c ∈ t, c = '.' ∨ c.isDigit = true

theorem Numeric.unsigned (h : size.Numeric) {tail : Text} (ht : Tail size.fraction tail) :
    Unsigned (size.whole ++ tail) := by
  have hwhole : ∀ c ∈ size.whole, c.isDigit = true := fun _ hc => h.isDigit (List.mem_append_left _ hc)
  have hfraction : ∀ c ∈ size.fraction, c.isDigit = true := fun _ hc => h.isDigit (List.mem_append_right _ hc)
  intro c hc
  rcases List.mem_append.mp hc with hm | hm
  · exact Or.inr (hwhole c hm)
  · generalize size.fraction = fraction at ht hfraction
    cases ht with
    | none => cases hm
    | point =>
      rcases List.mem_cons.mp hm with rfl | hm
      · exact Or.inl rfl
      · exact Or.inr (hfraction c hm)

theorem splitSign_of_unsigned {u : Text} (h : Unsigned u) : Decimal.splitSign u = (false, u) := by
  refine Decimal.splitSign_of_no_sign fun c hc => ?_
  rcases h c hc with rfl | hdigit
  · decide
  · exact Decimal.ne_sign_of_isDigit hdigit

theorem splitSign_of_sign {negative : Bool} {sign u : Text} (hsign : Sign negative sign) (h : Unsigned u) :
    Decimal.splitSign (sign ++ u) = (negative, u) := by
  cases hsign with
  | minus => rfl
  | plus => rfl
  | none => exact splitSign_of_unsigned h

theorem splitPoint {whole fraction tail : Text} (hwhole : '.' ∉ whole) (ht : Tail fraction tail) :
    (Text.splitOnce? '.' (whole ++ tail)).getD (whole ++ tail, []) = (whole, fraction) := by
  cases ht with
  | point => rw [Text.splitOnce?_eq_some_iff.mpr ⟨rfl, hwhole⟩, Option.getD_some]
  | none => rw [List.append_nil, Text.splitOnce?_of_not_mem hwhole, Option.getD_none]

theorem ofText?_of_spells (h : size.Spells t) : ofText? t = some size := by
  cases h with
  | parts hnumeric hsign htail =>
    have hgood : ¬ ((size.whole = [] ∧ size.fraction = []) ∨
        Decimal.allDigits (size.whole ++ size.fraction) = false) := by
      have hne := hnumeric.1
      simp only [ne_eq, List.append_eq_nil_iff] at hne
      simp [hne, hnumeric.2]
    unfold ofText?
    simp only [splitSign_of_sign hsign (hnumeric.unsigned htail), splitPoint hnumeric.point_not_mem htail, hgood,
      if_false]

theorem exists_sign (t : Text) : ∃ sign, t = sign ++ (Decimal.splitSign t).2 ∧ Sign (Decimal.splitSign t).1 sign := by
  unfold Decimal.splitSign
  split
  · exact ⟨['-'], rfl, .minus⟩
  · exact ⟨['+'], rfl, .plus⟩
  · exact ⟨[], rfl, .none⟩

theorem exists_tail (digits : Text) : ∃ whole fraction tail, digits = whole ++ tail ∧ Tail fraction tail ∧
    (Text.splitOnce? '.' digits).getD (digits, []) = (whole, fraction) := by
  cases h : Text.splitOnce? '.' digits with
  | none => exact ⟨digits, [], [], (List.append_nil _).symm, .none, rfl⟩
  | some parts => exact ⟨parts.1, parts.2, _, (Text.splitOnce?_eq_some_iff.mp h).1, .point parts.2, rfl⟩

theorem ofText?_eq_some_iff : ofText? t = some size ↔ size.Spells t := by
  constructor
  · intro h
    obtain ⟨sign, ht, hsign⟩ := exists_sign t
    obtain ⟨whole, fraction, tail, hdigits, htail, hcut⟩ := exists_tail (Decimal.splitSign t).2
    unfold ofText? at h
    simp only [hcut] at h
    split at h
    · cases h
    · rename_i hgood
      cases h
      have hnumeric : Numeric ⟨(Decimal.splitSign t).1, whole, fraction⟩ := by
        simp only [not_or, Bool.not_eq_false] at hgood
        exact ⟨fun hnil => hgood.1 (List.append_eq_nil_iff.mp hnil), hgood.2⟩
      have hspelled := Spells.parts hnumeric hsign htail
      rwa [← hdigits, ← ht] at hspelled
  · exact ofText?_of_spells

theorem solid_of_unsigned {u : Text} (h : Unsigned u) : u.Solid := by
  intro c hc
  rcases h c hc with rfl | hdigit
  · rfl
  · exact Text.isBlank_of_isDigit hdigit

theorem Sign.solid {negative : Bool} {sign : Text} (h : Sign negative sign) : sign.Solid := by
  cases h <;> decide

theorem solid_of_spells (h : size.Spells t) : t.Solid := by
  cases h with
  | parts hnumeric hsign htail =>
    exact List.forall_mem_append.mpr ⟨hsign.solid, solid_of_unsigned (hnumeric.unsigned htail)⟩

/-! ## Whole numbers -/

theorem fractionBytes_of_nil {unit : SizeUnit} (h : size.keptFraction = []) : size.fractionBytes unit = 0 := by
  simp [fractionBytes, fractionNumerator, fractionScale, h, Decimal.value]

theorem spells_whole {negative : Bool} {sign digits : Text} {n : Nat} (hsign : Sign negative sign)
    (hdigits : Decimal.Digits digits n) : Spells ⟨negative, digits, []⟩ (sign ++ digits) := by
  obtain ⟨hne, hall, -⟩ := hdigits
  have hnumeric : Numeric ⟨negative, digits, []⟩ := by
    rw [Numeric, List.append_nil]
    exact ⟨hne, List.all_eq_true.mpr hall⟩
  have hspells := Spells.parts hnumeric hsign .none
  rwa [List.append_nil] at hspells

theorem bytes_whole {digits : Text} {n : Nat} (hdigits : Decimal.Digits digits n) (negative : Bool) (unit : SizeUnit) :
    bytes ⟨negative, digits, []⟩ unit = (if negative then -(n : Int) else n) * unit.factor := by
  have hmagnitude : magnitude ⟨negative, digits, []⟩ unit = n * unit.factor := by
    have hkept : keptFraction ⟨negative, digits, []⟩ = [] := List.take_nil
    rw [magnitude, fractionBytes_of_nil hkept, Nat.add_zero, ← hdigits.2.2]
    rfl
  rw [bytes, hmagnitude, Int.natCast_mul]
  cases negative with
  | true => exact (Int.neg_mul _ _).symm
  | false => rfl

/-- The numeral of an integer is one of a size, of as many units. -/
theorem exists_spells_of_denotes {n : Int} (h : Decimal.Denotes t n) :
    ∃ size : SizeLiteral, size.Spells t ∧ ∀ unit : SizeUnit, size.bytes unit = n * unit.factor := by
  cases h with
  | bare hdigits => exact ⟨_, spells_whole .none hdigits, bytes_whole hdigits false⟩
  | plus hdigits => exact ⟨_, spells_whole .plus hdigits, bytes_whole hdigits false⟩
  | minus hdigits => exact ⟨_, spells_whole .minus hdigits, bytes_whole hdigits true⟩

end SizeLiteral

/-! ## Conversion -/

/-- A size that is written as such is converted to its bytes, if they are in range. -/
theorem sizeToBytes_eq_ok_iff {size : SizeLiteral} {unit : SizeUnit} {t name : Text} (ht : size.Spells t)
    (hname : unit.Names name) {bytes : Signed 64} :
    Coerce.sizeToBytes t name = .ok bytes ↔ bytes.val = size.bytes unit := by
  have hunit : SizeUnit.ofName? (Text.trim name) = some unit := by
    rw [SizeUnit.trim_of_names hname, SizeUnit.ofName?_of_names hname]
  have hsize : SizeLiteral.ofText? (Text.trim t) = some size := by
    rw [Text.trim_of_solid (SizeLiteral.solid_of_spells ht), SizeLiteral.ofText?_of_spells ht]
  rw [← Signed.ofInt?_eq_some_iff]
  simp only [Coerce.sizeToBytes, hunit, hsize]
  cases Signed.ofInt? 64 (size.bytes unit) <;> simp

end HostTables
