/-
  HostTables.Proofs.Coerce.SizeOutcomes — what a value and a unit are converted to.

  Blanks around the two do not count (`Text.Padded`). The unit is judged first, whatever the value is; then
  the value has to spell a size; then the bytes have to be in range. They are those of the size with the first
  digits of its fraction, rounded half away from zero. So each of the four outcomes has a condition on the two texts
  (`SizeOutcome`), and exactly one of them holds (`sizeToBytes_eq_iff`).

  `sizes_converted_exactly`: with words of 128 bits the outcome is the same, no operation fails on the way, and every
  integer of 64 bits is the outcome of some value.
-/
import HostTables.Proofs.Coerce.SizeWords

namespace HostTables

/-! ## Blanks around a value and a unit -/

/-- The text is a name of the unit, with blanks around it. -/
def SizeUnit.NamedIn (unit : SizeUnit) (text : Text) : Prop := ∃ name, unit.Names name ∧ Text.Padded name text

/-- The value is a numeral of the size, with blanks around it. -/
def SizeLiteral.SpelledIn (size : SizeLiteral) (value : Text) : Prop := ∃ t, size.Spells t ∧ Text.Padded t value

variable {unit value : Text}

theorem SizeUnit.namedIn_iff {named : SizeUnit} : named.NamedIn unit ↔ ofName? (Text.trim unit) = some named := by
  rw [ofName?_eq_some_iff]
  constructor
  · rintro ⟨name, hname, hpadded⟩
    rwa [(Text.trim_eq_iff (solid_of_names hname)).mpr hpadded]
  · intro h
    exact ⟨_, h, (Text.trim_eq_iff (solid_of_names h)).mp rfl⟩

theorem SizeLiteral.spelledIn_iff {size : SizeLiteral} :
    size.SpelledIn value ↔ ofText? (Text.trim value) = some size := by
  rw [ofText?_eq_some_iff]
  constructor
  · rintro ⟨t, ht, hpadded⟩
    rwa [(Text.trim_eq_iff (solid_of_spells ht)).mpr hpadded]
  · intro h
    exact ⟨_, h, (Text.trim_eq_iff (solid_of_spells h)).mp rfl⟩

theorem SizeUnit.NamedIn.unique {named other : SizeUnit} (h : named.NamedIn unit) (hother : other.NamedIn unit) :
    named = other :=
  Option.some.inj ((namedIn_iff.mp h).symm.trans (namedIn_iff.mp hother))

theorem SizeLiteral.SpelledIn.unique {size other : SizeLiteral} (h : size.SpelledIn value)
    (hother : other.SpelledIn value) : size = other :=
  Option.some.inj ((spelledIn_iff.mp h).symm.trans (spelledIn_iff.mp hother))

theorem SizeLiteral.SpelledIn.numeric {size : SizeLiteral} (h : size.SpelledIn value) : size.Numeric := by
  obtain ⟨t, ht, -⟩ := h
  exact ht.numeric

/-! ## Outcomes -/

/-- What the conversion comes to: the unit is judged first, then the form of the value, then the range. Of the fraction
    the first eighteen digits count. -/
inductive SizeOutcome (value unit : Text) : Except CoerceError (Signed 64) → Prop
  | unknownUnit : (∀ named : SizeUnit, ¬ named.NamedIn unit) →
      SizeOutcome value unit (.error (.unknownUnit (Text.trim unit)))
  | invalid {named : SizeUnit} : named.NamedIn unit → (∀ size : SizeLiteral, ¬ size.SpelledIn value) →
      SizeOutcome value unit (.error (.invalidSize (Text.trim (value ++ ' ' :: unit))))
  | outOfRange {named : SizeUnit} {size : SizeLiteral} {n : Int} : named.NamedIn unit → size.SpelledIn value →
      RoundsAway (SizeLiteral.exactBytes { size with fraction := size.fraction.take 18 } named) n →
      ¬ Signed.InRange 64 n →
      SizeOutcome value unit (.error (.outOfRange (Text.trim (Text.trim value ++ ' ' :: unit))))
  | bytes {named : SizeUnit} {size : SizeLiteral} {word : Signed 64} : named.NamedIn unit → size.SpelledIn value →
      RoundsAway (SizeLiteral.exactBytes { size with fraction := size.fraction.take 18 } named) word.val →
      SizeOutcome value unit (.ok word)

variable {named : SizeUnit} {size : SizeLiteral} {result : Except CoerceError (Signed 64)}

theorem sizeToBytes_of_unnamed (h : ∀ named : SizeUnit, ¬ named.NamedIn unit) :
    Coerce.sizeToBytes value unit = .error (.unknownUnit (Text.trim unit)) := by
  simp only [SizeUnit.namedIn_iff, ← ne_eq, ← Option.eq_none_iff_forall_ne_some] at h
  rw [Coerce.sizeToBytes, h]

theorem sizeToBytes_of_unspelled (hunit : named.NamedIn unit) (h : ∀ size : SizeLiteral, ¬ size.SpelledIn value) :
    Coerce.sizeToBytes value unit = .error (.invalidSize (Text.trim (value ++ ' ' :: unit))) := by
  simp only [SizeLiteral.spelledIn_iff, ← ne_eq, ← Option.eq_none_iff_forall_ne_some] at h
  rw [Coerce.sizeToBytes, SizeUnit.namedIn_iff.mp hunit, h]

theorem sizeToBytes_of_inRange (hunit : named.NamedIn unit) (hvalue : size.SpelledIn value) {word : Signed 64}
    (hword : word.val = size.bytes named) : Coerce.sizeToBytes value unit = .ok word := by
  simp only [Coerce.sizeToBytes, SizeUnit.namedIn_iff.mp hunit, SizeLiteral.spelledIn_iff.mp hvalue,
    Signed.ofInt?_eq_some_iff.mpr hword]

theorem sizeToBytes_of_not_inRange (hunit : named.NamedIn unit) (hvalue : size.SpelledIn value)
    (hrange : ¬ Signed.InRange 64 (size.bytes named)) :
    Coerce.sizeToBytes value unit = .error (.outOfRange (Text.trim (Text.trim value ++ ' ' :: unit))) := by
  simp only [Coerce.sizeToBytes, SizeUnit.namedIn_iff.mp hunit, SizeLiteral.spelledIn_iff.mp hvalue,
    Signed.ofInt?_eq_none_iff.mpr hrange]

/-- The conversion has one of the outcomes, and there is no other. -/
theorem sizeToBytes_eq_iff : Coerce.sizeToBytes value unit = result ↔ SizeOutcome value unit result := by
  constructor
  · rintro rfl
    by_cases hunit : ∃ named : SizeUnit, named.NamedIn unit
    · obtain ⟨named, hunit⟩ := hunit
      by_cases hvalue : ∃ size : SizeLiteral, size.SpelledIn value
      · obtain ⟨size, hvalue⟩ := hvalue
        have hrounded := SizeLiteral.roundsAway_cut_iff.mpr (Eq.refl (size.bytes named))
        by_cases hrange : Signed.InRange 64 (size.bytes named)
        · obtain ⟨word, hword⟩ := Signed.inRange_iff.mp hrange
          rw [sizeToBytes_of_inRange hunit hvalue hword]
          exact .bytes hunit hvalue (hword ▸ hrounded)
        · rw [sizeToBytes_of_not_inRange hunit hvalue hrange]
          exact .outOfRange hunit hvalue hrounded hrange
      · have hnone := not_exists.mp hvalue
        rw [sizeToBytes_of_unspelled hunit hnone]
        exact .invalid hunit hnone
    · have hnone := not_exists.mp hunit
      rw [sizeToBytes_of_unnamed hnone]
      exact .unknownUnit hnone
  · intro h
    cases h with
    | unknownUnit hnone => exact sizeToBytes_of_unnamed hnone
    | invalid hunit hnone => exact sizeToBytes_of_unspelled hunit hnone
    | outOfRange hunit hvalue hrounded hrange =>
      have hbytes := SizeLiteral.roundsAway_cut_iff.mp hrounded
      exact sizeToBytes_of_not_inRange hunit hvalue (hbytes ▸ hrange)
    | bytes hunit hvalue hrounded =>
      exact sizeToBytes_of_inRange hunit hvalue (SizeLiteral.roundsAway_cut_iff.mp hrounded)

/-- What is known of a value and a unit that are converted. -/
theorem exists_of_sizeToBytes_ok {word : Signed 64} (h : Coerce.sizeToBytes value unit = .ok word) :
    ∃ (named : SizeUnit) (size : SizeLiteral),
      named.NamedIn unit ∧ size.SpelledIn value ∧ word.val = size.bytes named := by
  cases sizeToBytes_eq_iff.mp h with
  | bytes hunit hvalue hrounded => exact ⟨_, _, hunit, hvalue, SizeLiteral.roundsAway_cut_iff.mp hrounded⟩

/-! ## All of it -/

theorem SizeUnit.namedIn_of_names {name : Text} (h : named.Names name) : named.NamedIn name :=
  ⟨name, h, Text.padded_self name⟩

theorem SizeLiteral.spelledIn_of_spells {t : Text} (h : size.Spells t) : size.SpelledIn t :=
  ⟨t, h, Text.padded_self t⟩

theorem sizeToBytes_ofInt (word : Signed 64) : Coerce.sizeToBytes (Decimal.ofInt word.val) [] = .ok word := by
  obtain ⟨size, hspells, hbytes⟩ := SizeLiteral.exists_spells_of_denotes (Decimal.denotes_ofInt word.val)
  have hunit : SizeUnit.byte.NamedIn [] := SizeUnit.namedIn_of_names (by decide)
  refine sizeToBytes_of_inRange hunit (SizeLiteral.spelledIn_of_spells hspells) ?_
  rw [hbytes]
  exact (Int.mul_one _).symm

/-- For every value and unit the outcome is the one whose condition the two texts meet. Computed with words of 128 bits
    it is the same one, so no product, sum, power or negation leaves the words, nothing is divided by zero and no text
    is cut inside a character. Every integer of 64 bits is reached. -/
theorem sizes_converted_exactly :
    (∀ value unit result, Coerce.sizeToBytes value unit = result ↔ SizeOutcome value unit result) ∧
    (∀ value unit, Coerce.sizeInWords value unit = (Coerce.sizeToBytes value unit).mapError .refused) ∧
    ∀ word : Signed 64, Coerce.sizeToBytes (Decimal.ofInt word.val) [] = .ok word :=
  ⟨fun _ _ _ => sizeToBytes_eq_iff, sizeInWords_eq, sizeToBytes_ofInt⟩

end HostTables
