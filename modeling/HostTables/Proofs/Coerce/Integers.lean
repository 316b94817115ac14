/-
  HostTables.Proofs.Coerce.Integers — tokens as integers of 32, 64 and 128 bits.

  A conversion takes the tokens that stand for an integer in the range of its width, gives this integer, and
  reports any other token as it is (`Exact`). Numerals stand for integers in every width; in 64 bits so does
  the word for a limit that is not set (`IsMax`). That is all there is to a conversion, so a wider one
  takes what a narrower one takes (`exists_wider`), and every integer in range is read back from its numeral.

  `integers_read_exactly`: the three conversions, and what they have in common.
-/
import HostTables.Proofs.Number.Decimal
import Mathlib.Algebra.Order.Ring.Int
import Mathlib.Tactic.NormNum

namespace HostTables

namespace Signed

/-- The integer is in the two's complement range of the width. -/
def InRange (width : Nat) (n : Int) : Prop := -2 ^ (width - 1) ≤ n ∧ n < 2 ^ (width - 1)

variable {width : Nat}

theorem inRange_iff {n : Int} : InRange width n ↔ ∃ word : Signed width, word.val = n := by
  have hbound : ((bound width : ℕ) : Int) = 2 ^ (width - 1) := Nat.cast_pow 2 (width - 1)
  unfold InRange
  rw [← hbound]
  constructor
  · intro h
    exact ⟨⟨n, h.1, h.2⟩, rfl⟩
  · rintro ⟨word, rfl⟩
    exact ⟨word.min_le, word.lt_max⟩

theorem ofInt?_eq_none_iff {n : Int} : ofInt? width n = none ↔ ¬ InRange width n := by
  rw [inRange_iff, not_exists, Option.eq_none_iff_forall_ne_some]
  simp only [ne_eq, ofInt?_eq_some_iff]

theorem inRange_mono {wide : Nat} {n : Int} (hle : width ≤ wide) (h : InRange width n) : InRange wide n := by
  have hpow : (2 : Int) ^ (width - 1) ≤ 2 ^ (wide - 1) := pow_le_pow_right₀ (by decide) (Nat.sub_le_sub_right hle 1)
  obtain ⟨hlow, hhigh⟩ := h
  exact ⟨by omega, by omega⟩

end Signed

namespace Coerce

/-! ## Conversions -/

/-- The conversion takes the tokens that stand for an integer in range, for this integer, and reports every
    other token. -/
structure Exact {width : Nat} (convert : Text → Except CoerceError (Signed width)) (Stands : Text → Int → Prop)
    (target : String) : Prop where
  ok : ∀ token n, (∃ word, convert token = .ok word ∧ word.val = n) ↔ Stands token n ∧ Signed.InRange width n
  error : ∀ token e, convert token = .error e ↔
    (∀ n, Stands token n → ¬ Signed.InRange width n) ∧ e = .invalid token target

/-- The word for a limit that is not set. -/
def IsMax (token : Text) : Prop :=
  ∃ m a x, token = [m, a, x] ∧ (m = 'm' ∨ m = 'M') ∧ (a = 'a' ∨ a = 'A') ∧ (x = 'x' ∨ x = 'X')

/-- What a token of 64 bits stands for. -/
def Stands64 (token : Text) (n : Int) : Prop := Decimal.Denotes token n ∨ IsMax token ∧ n = 2 ^ 63 - 1

variable {width : Nat} {convert : Text → Except CoerceError (Signed width)} {Stands : Text → Int → Prop}
  {target : String} {token : Text}

theorem exact_of_ok (hok : ∀ token word, convert token = .ok word ↔ Stands token word.val)
    (herror : ∀ token e, convert token = .error e → e = .invalid token target) : Exact convert Stands target := by
  refine ⟨fun token n => ?_, fun token e => ?_⟩
  · rw [Signed.inRange_iff]
    constructor
    · rintro ⟨word, hword, rfl⟩
      exact ⟨(hok token word).mp hword, word, rfl⟩
    · rintro ⟨hstands, word, rfl⟩
      exact ⟨word, (hok token word).mpr hstands, rfl⟩
  · constructor
    · intro h
      refine ⟨fun n hstands hrange => ?_, herror token e h⟩
      obtain ⟨word, rfl⟩ := Signed.inRange_iff.mp hrange
      rw [(hok token word).mpr hstands] at h
      cases h
    · rintro ⟨hnone, rfl⟩
      cases h : convert token with
      | ok word => exact absurd (Signed.inRange_iff.mpr ⟨word, rfl⟩) (hnone _ ((hok token word).mp h))
      | error e => rw [herror token e h]

theorem signed_eq_ok_iff {word : Signed width} :
    signed width target token = .ok word ↔ Decimal.Denotes token word.val := by
  rw [← Decimal.integer?_eq_some_iff]
  unfold signed
  cases h : Decimal.integer? token with
  | none => simp
  | some n =>
    rw [Option.bind_some, Option.some.injEq, @eq_comm Int n, ← Signed.ofInt?_eq_some_iff]
    cases Signed.ofInt? width n <;> simp

theorem signed_error {e : CoerceError} (h : signed width target token = .error e) : e = .invalid token target := by
  unfold signed at h
  split at h
  · cases h
  · exact (Except.error.inj h).symm

theorem signed_exact (width : Nat) (target : String) : Exact (signed width target) Decimal.Denotes target :=
  exact_of_ok (fun _ _ => signed_eq_ok_iff) fun _ _ => signed_error

/-! ## The word for no limit -/

/-- A letter is written in lower or in upper case, if that is so in ASCII. -/
theorem toLower_eq_iff {letter upper : Char} (hupper : upper.toNat < 128)
    (hall : ∀ n < 128, ((Char.ofNat n).toLower = letter ↔ Char.ofNat n = letter ∨ Char.ofNat n = upper)) {c : Char} :
    c.toLower = letter ↔ c = letter ∨ c = upper := by
  by_cases hc : c.toNat < 128
  · exact Text.forall_ascii (P := fun c => (c.toLower = letter ↔ c = letter ∨ c = upper)) hall hc
  · have hsame : c.toLower = c := Text.toLower_of_not_upper fun h => hc (Nat.lt_of_le_of_lt h.2 (by decide))
    have hne : c ≠ upper := fun h => hc (h ▸ hupper)
    simp [hsame, hne]

theorem isUnlimited_iff : isUnlimited token = true ↔ IsMax token := by
  have hm {c : Char} : c.toLower = 'm' ↔ c = 'm' ∨ c = 'M' := toLower_eq_iff (by decide) (by decide)
  have ha {c : Char} : c.toLower = 'a' ↔ c = 'a' ∨ c = 'A' := toLower_eq_iff (by decide) (by decide)
  have hx {c : Char} : c.toLower = 'x' ↔ c = 'x' ∨ c = 'X' := toLower_eq_iff (by decide) (by decide)
  have hword : "max".toList = ['m', 'a', 'x'] := rfl
  unfold isUnlimited Text.lower IsMax
  rw [beq_iff_eq, hword]
  constructor
  · intro h
    obtain ⟨m, _, rfl, hfirst, h⟩ := List.map_eq_cons_iff.mp h
    obtain ⟨a, _, rfl, hsecond, h⟩ := List.map_eq_cons_iff.mp h
    obtain ⟨x, _, rfl, hthird, h⟩ := List.map_eq_cons_iff.mp h
    obtain rfl := List.map_eq_nil_iff.mp h
    exact ⟨m, a, x, rfl, hm.mp hfirst, ha.mp hsecond, hx.mp hthird⟩
  · rintro ⟨m, a, x, rfl, hfirst, hsecond, hthird⟩
    simp only [List.map_cons, List.map_nil, hm.mpr hfirst, ha.mpr hsecond, hx.mpr hthird]

/-- No numeral is the word. -/
theorem not_denotes_of_isMax (h : IsMax token) (n : Int) : ¬ Decimal.Denotes token n := by
  obtain ⟨m, a, x, rfl, hm, -, -⟩ := h
  have hletter : m.isDigit = false ∧ m ≠ '-' ∧ m ≠ '+' := by
    rcases hm with rfl | rfl
    · decide
    · decide
  obtain ⟨hdigit, hminus, hplus⟩ := hletter
  intro hdenotes
  cases hdenotes with
  | bare hdigits => exact absurd (hdigits.2.1 m List.mem_cons_self) (by simp [hdigit])
  | plus => exact hplus rfl
  | minus => exact hminus rfl

theorem toInt64_eq_ok_iff {word : Signed 64} : toInt64 token = .ok word ↔ Stands64 token word.val := by
  unfold toInt64 Stands64
  rw [← isUnlimited_iff]
  by_cases hmax : isUnlimited token = true
  · have hlargest : (Signed.maxValue 64).val = 2 ^ 63 - 1 := by decide
    have hnumeral := not_denotes_of_isMax (isUnlimited_iff.mp hmax) word.val
    rw [if_pos hmax, Except.ok.injEq, Signed.ext_iff, hlargest]
    simp only [hnumeral, hmax, false_or, true_and]
    exact eq_comm
  · simp [signed_eq_ok_iff, hmax]

theorem toInt64_exact : Exact toInt64 Stands64 "bigint" := by
  refine exact_of_ok (fun _ _ => toInt64_eq_ok_iff) fun token e h => ?_
  unfold toInt64 at h
  split at h
  · cases h
  · exact signed_error h

/-! ## Widths -/

/-- What stands for an integer does so in a wider conversion, where it is in range again. -/
theorem exists_wider {wide : Nat} {StandsWide : Text → Int → Prop} {targetWide : String}
    {convertWide : Text → Except CoerceError (Signed wide)} (hnarrow : Exact convert Stands target)
    (hwide : Exact convertWide StandsWide targetWide) (hle : width ≤ wide) {word : Signed width}
    (h : convert token = .ok word) (hstands : Stands token word.val → StandsWide token word.val) :
    ∃ wider, convertWide token = .ok wider ∧ wider.val = word.val := by
  obtain ⟨hnarrow, hrange⟩ := (hnarrow.ok token word.val).mp ⟨word, h, rfl⟩
  exact (hwide.ok token word.val).mpr ⟨hstands hnarrow, Signed.inRange_mono hle hrange⟩

/-- Each conversion takes the numerals of the integers in its range, with any number of zeros in front, and the one of
    64 bits also the word `max`; it reports every other token as it is. What a narrower one takes a wider one takes
    for the same integer, but for that word, and every integer in range is read back from its numeral. -/
theorem integers_read_exactly :
    Exact toInt32 Decimal.Denotes "integer" ∧ Exact toInt64 Stands64 "bigint" ∧
    Exact toNumeric Decimal.Denotes "numeric" ∧
    (∀ token word, toInt32 token = .ok word → (∃ wider, toInt64 token = .ok wider ∧ wider.val = word.val) ∧
      ∃ wider, toNumeric token = .ok wider ∧ wider.val = word.val) ∧
    (∀ token word, toInt64 token = .ok word → ¬ IsMax token →
      ∃ wider, toNumeric token = .ok wider ∧ wider.val = word.val) ∧
    (∀ token, IsMax token → toInt32 token = .error (.invalid token "integer") ∧
      toNumeric token = .error (.invalid token "numeric")) ∧
    (∀ word : Signed 32, toInt32 (Decimal.ofInt word.val) = .ok word) ∧
    (∀ word : Signed 64, toInt64 (Decimal.ofInt word.val) = .ok word) ∧
    ∀ word : Signed 128, toNumeric (Decimal.ofInt word.val) = .ok word := by
  have h32 : Exact toInt32 Decimal.Denotes "integer" := signed_exact 32 "integer"
  have h128 : Exact toNumeric Decimal.Denotes "numeric" := signed_exact 128 "numeric"
  refine ⟨h32, toInt64_exact, h128, ?_, ?_, ?_, ?_, ?_, ?_⟩
  · intro token word h
    exact ⟨exists_wider h32 toInt64_exact (by decide) h Or.inl, exists_wider h32 h128 (by decide) h id⟩
  · intro token word h hmax
    exact exists_wider toInt64_exact h128 (by decide) h fun hstands => hstands.resolve_right fun h => hmax h.1
  · intro token hmax
    have hnone : ∀ n, Decimal.Denotes token n → False := not_denotes_of_isMax hmax
    exact ⟨(h32.error _ _).mpr ⟨fun n h => (hnone n h).elim, rfl⟩,
      (h128.error _ _).mpr ⟨fun n h => (hnone n h).elim, rfl⟩⟩
  · exact fun word => signed_eq_ok_iff.mpr (Decimal.denotes_ofInt word.val)
  · exact fun word => toInt64_eq_ok_iff.mpr (Or.inl (Decimal.denotes_ofInt word.val))
  · exact fun word => signed_eq_ok_iff.mpr (Decimal.denotes_ofInt word.val)

/-- The smallest integer of 32 bits with zeros in front is taken in every width, the largest of 64 bits behind a
    plus in the wider two, and the word for no limit in 64 bits only. -/
theorem integers_at_the_ends :
    (toInt32 "-0002147483648".toList = .ok (Signed.minValue 32) ∧
      ∃ wider, toNumeric "-0002147483648".toList = .ok wider ∧ wider.val = (Signed.minValue 32).val) ∧
    (toInt64 "+9223372036854775807".toList = .ok (Signed.maxValue 64) ∧ ¬ IsMax "+9223372036854775807".toList ∧
      ∃ wider, toNumeric "+9223372036854775807".toList = .ok wider ∧ wider.val = (Signed.maxValue 64).val) ∧
    (IsMax "mAX".toList ∧ toInt32 "mAX".toList = .error (.invalid "mAX".toList "integer")) := by
  obtain ⟨-, -, -, narrow, middle, unlimited, -⟩ := integers_read_exactly
  have hsmallest : toInt32 "-0002147483648".toList = .ok (Signed.minValue 32) := by decide +kernel
  have hlargest : toInt64 "+9223372036854775807".toList = .ok (Signed.maxValue 64) := by decide +kernel
  have hnumeral : ¬ IsMax "+9223372036854775807".toList := fun h => by cases isUnlimited_iff.mpr h
  have hmax : IsMax "mAX".toList := ⟨'m', 'A', 'X', rfl, by decide, by decide, by decide⟩
  exact ⟨⟨hsmallest, (narrow _ _ hsmallest).2⟩, ⟨hlargest, hnumeral, middle _ _ hlargest hnumeral⟩,
    hmax, (unlimited _ hmax).1⟩

end Coerce

end HostTables
