/-
  HostTables.Proofs.Number.Decimal — integers survive being written as numerals and read back.

  A natural number is read from a run of digits (`natural?_eq_some_iff`), with or without a plus in
  front where no minus is allowed (`unsigned?_eq_some_iff`), and an integer with at most one sign in front
  (`integer?_eq_some_iff`). The numeral of a natural number is made of
  digits that denote it, so it is read as that number (`natural?_ofNat`), and with a minus in front as
  the negative one (`integer?_ofInt`). No positive number has a zero in front (`head?_ofNat`). The
  characters come behind the blanks and before the letters (`range_of_mem_ofInt`), so no numeral is cut
  as a token, and none is the word for a limit that is not set. A column of 64 bits takes the numeral
  of every word, and `max` for the largest (`toInt64_of_spells`).
-/
import HostTables.Coerce.Token
import HostTables.Proofs.Text.Words

namespace HostTables

namespace Decimal

/-! ## Numerals -/

theorem natural?_eq_some_iff {t : Text} {n : Nat} :
    natural? t = some n ↔ t ≠ [] ∧ (∀ c ∈ t, c.isDigit = true) ∧ value t = n := by
  simp [natural?, allDigits, and_assoc]

/-- A numeral without a minus is a run of digits, with or without a plus in front. -/
theorem unsigned?_eq_some_iff {t : Text} {n : Nat} : unsigned? t = some n ↔
    ∃ plus digits, t = plus ++ digits ∧ (plus = [] ∨ plus = ['+']) ∧ natural? digits = some n := by
  unfold unsigned?
  split
  · rename_i digits
    constructor
    · intro h
      exact ⟨['+'], digits, rfl, Or.inr rfl, h⟩
    · intro h
      obtain ⟨plus, other, ht, hplus, h⟩ := h
      rcases hplus with rfl | rfl
      · obtain ⟨-, hdigits, -⟩ := natural?_eq_some_iff.mp h
        have hmem : '+' ∈ other := by
          rw [← List.nil_append other, ← ht]
          exact List.mem_cons_self
        exact absurd (hdigits '+' hmem) (by decide)
      · cases ht
        exact h
  · rename_i hsign
    constructor
    · intro h
      exact ⟨[], t, rfl, Or.inl rfl, h⟩
    · intro h
      obtain ⟨plus, digits, ht, hplus, h⟩ := h
      rcases hplus with rfl | rfl
      · rw [ht]
        exact h
      · exact absurd ht (hsign digits)

/-- One or more digits of the number, with any number of zeros in front. -/
def Digits (digits : Text) (n : Nat) : Prop :=
  digits ≠ [] ∧ (∀ c ∈ digits, c.isDigit = true) ∧ Nat.ofDigitChars 10 digits 0 = n

/-- The text is a numeral of the integer: its digits, with at most one sign in front. -/
inductive Denotes : Text → Int → Prop
  | bare {digits : Text} {n : Nat} : Digits digits n → Denotes digits n
  | plus {digits : Text} {n : Nat} : Digits digits n → Denotes ('+' :: digits) n
  | minus {digits : Text} {n : Nat} : Digits digits n → Denotes ('-' :: digits) (-n)

theorem splitSign_of_no_sign {t : Text} (h : ∀ c ∈ t, c ≠ '-' ∧ c ≠ '+') : splitSign t = (false, t) := by
  unfold splitSign
  split
  · exact absurd rfl (h '-' List.mem_cons_self).1
  · exact absurd rfl (h '+' List.mem_cons_self).2
  · rfl

theorem ne_sign_of_isDigit {c : Char} (h : c.isDigit = true) : c ≠ '-' ∧ c ≠ '+' := by
  constructor
  · rintro rfl
    cases h
  · rintro rfl
    cases h

theorem integer?_eq_some_iff {t : Text} {n : Int} : integer? t = some n ↔ Denotes t n := by
  constructor
  · intro h
    obtain ⟨_, hread, rfl⟩ := Option.map_eq_some_iff.mp h
    obtain ⟨m, hm, hcast⟩ := Option.bind_eq_some_iff.mp hread
    cases hcast
    unfold splitSign at hm ⊢
    split at hm
    · exact .minus (natural?_eq_some_iff.mp hm)
    · exact .plus (natural?_eq_some_iff.mp hm)
    · exact .bare (natural?_eq_some_iff.mp hm)
  · intro h
    cases h with
    | bare hdigits =>
      have hsign := splitSign_of_no_sign fun c hc => ne_sign_of_isDigit (hdigits.2.1 c hc)
      rw [integer?, hsign, natural?_eq_some_iff.mpr hdigits]
      rfl
    | plus hdigits =>
      rw [integer?, splitSign, natural?_eq_some_iff.mpr hdigits]
      rfl
    | minus hdigits =>
      rw [integer?, splitSign, natural?_eq_some_iff.mpr hdigits]
      rfl

theorem Denotes.unique {t : Text} {n m : Int} (h : Denotes t n) (hm : Denotes t m) : n = m :=
  Option.some.inj ((integer?_eq_some_iff.mpr h).symm.trans (integer?_eq_some_iff.mpr hm))

theorem isDigit_of_mem_ofNat {n : Nat} {c : Char} (h : c ∈ ofNat n) : c.isDigit = true :=
  Nat.isDigit_of_mem_toDigits (by decide) (by decide) h

/-- What is no digit does not stand in front. -/
theorem ofNat_ne_cons {c : Char} (h : c.isDigit = false) (n : Nat) (rest : Text) : ofNat n ≠ c :: rest := by
  intro heq
  have hdigit : c.isDigit = true := isDigit_of_mem_ofNat (heq ▸ List.mem_cons_self)
  rw [h] at hdigit
  cases hdigit

theorem natural?_ofNat (n : Nat) : natural? (ofNat n) = some n := by
  have hne : ofNat n ≠ [] := Nat.toDigits_ne_nil
  have hvalue : value (ofNat n) = n := Nat.ofDigitChars_ten_toDigits
  exact natural?_eq_some_iff.mpr ⟨hne, fun _ hc => isDigit_of_mem_ofNat hc, hvalue⟩

theorem digitChar_ne_zero : ∀ d < 10, 0 < d → Nat.digitChar d ≠ '0' := by decide

/-- The shortest numeral has no needless zero. -/
theorem head?_ofNat {n : Nat} (h : 0 < n) : (ofNat n).head? ≠ some '0' := by
  induction n using Nat.strongRecOn with
  | ind n ih =>
    rcases Nat.lt_or_ge n 10 with hlt | hge
    · rw [ofNat, Nat.toDigits_of_lt_base hlt]
      exact fun heq => digitChar_ne_zero n hlt h (Option.some.inj heq)
    · have hshorter := ih (n / 10) (by omega) (by omega)
      rw [ofNat, Nat.toDigits_of_base_le (by decide) hge]
      cases hdigits : Nat.toDigits 10 (n / 10) with
      | nil => exact absurd hdigits Nat.toDigits_ne_nil
      | cons c rest =>
        rw [ofNat, hdigits] at hshorter
        exact hshorter

/-- Digits have no sign in front. -/
theorem splitSign_ofNat (n : Nat) : splitSign (ofNat n) = (false, ofNat n) :=
  splitSign_of_no_sign fun _ hc => ne_sign_of_isDigit (isDigit_of_mem_ofNat hc)

theorem integer?_ofInt (n : Int) : integer? (ofInt n) = some n := by
  cases n with
  | ofNat n =>
    rw [ofInt, integer?, splitSign_ofNat, natural?_ofNat]
    rfl
  | negSucc n =>
    have hsign : splitSign ('-' :: ofNat (n + 1)) = (true, ofNat (n + 1)) := rfl
    rw [ofInt, integer?, hsign, natural?_ofNat]
    rfl

theorem denotes_ofInt (n : Int) : Denotes (ofInt n) n := integer?_eq_some_iff.mp (integer?_ofInt n)

theorem ofInt_ne_nil (n : Int) : ofInt n ≠ [] := by
  cases n with
  | ofNat n => exact Nat.toDigits_ne_nil
  | negSucc n => exact List.cons_ne_nil _ _

/-- A numeral has digits and perhaps a minus. -/
theorem mem_ofInt {n : Int} {c : Char} (h : c ∈ ofInt n) : c = '-' ∨ c.isDigit = true := by
  cases n with
  | ofNat n => exact Or.inr (isDigit_of_mem_ofNat h)
  | negSucc n =>
    rcases List.mem_cons.mp h with hminus | hdigit
    · exact Or.inl hminus
    · exact Or.inr (isDigit_of_mem_ofNat hdigit)

/-- Its characters come behind the blanks and before the letters. -/
theorem range_of_mem_ofInt {n : Int} {c : Char} (h : c ∈ ofInt n) : ' '.toNat < c.toNat ∧ c.toNat < 'A'.toNat := by
  rcases mem_ofInt h with rfl | hdigit
  · decide
  · have hrange := Char.isDigit_iff_toNat.mp hdigit
    have hzero : ' '.toNat < '0'.toNat := by decide
    have hnine : '9'.toNat < 'A'.toNat := by decide
    omega

/-- A numeral is a token on a line. -/
theorem token_ofInt (n : Int) : ofInt n ≠ [] ∧ ' ' ∉ ofInt n ∧ '\n' ∉ ofInt n :=
  ⟨ofInt_ne_nil n, fun h => absurd (range_of_mem_ofInt h).1 (by decide),
    fun h => absurd (range_of_mem_ofInt h).1 (by decide)⟩

end Decimal

/-! ## Columns of 64 bits -/

namespace Coerce

/-- The text stands for the word: its numeral, or `max` for the largest. -/
def Spells (word : Signed 64) (t : Text) : Prop :=
  t = Decimal.ofInt word.val ∨ word = Signed.maxValue 64 ∧ t = "max".toList

/-- A spelling is a token on a line. -/
theorem token_of_spells {word : Signed 64} {t : Text} (h : Spells word t) : t ≠ [] ∧ ' ' ∉ t ∧ '\n' ∉ t := by
  rcases h with rfl | ⟨-, rfl⟩
  · exact Decimal.token_ofInt _
  · decide

/-- A numeral has no letter, so it is not the word. -/
theorem isUnlimited_ofInt (n : Int) : isUnlimited (Decimal.ofInt n) = false := by
  have hlower : Text.lower (Decimal.ofInt n) = Decimal.ofInt n := by
    have hsame : ∀ c ∈ Decimal.ofInt n, c.toLower = id c := by
      intro c hc
      exact Text.toLower_of_not_upper fun h => absurd (Decimal.range_of_mem_ofInt hc).2 (Nat.not_lt.mpr h.1)
    rw [Text.lower, List.map_congr_left hsame, List.map_id]
  have hword : Decimal.ofInt n ≠ "max".toList := by
    intro h
    have hm : 'm' ∈ Decimal.ofInt n := by
      rw [h]
      decide
    exact absurd (Decimal.range_of_mem_ofInt hm).2 (by decide)
  rw [isUnlimited, hlower]
  simpa using hword

theorem toInt64_of_spells {word : Signed 64} {t : Text} (h : Spells word t) : toInt64 t = .ok word := by
  rcases h with rfl | ⟨rfl, rfl⟩
  · have hword : (Decimal.integer? (Decimal.ofInt word.val)).bind (Signed.ofInt? 64) = some word := by
      rw [Decimal.integer?_ofInt]
      exact Signed.ofInt?_eq_some_iff.mpr rfl
    rw [toInt64, isUnlimited_ofInt, signed, hword]
    rfl
  · rfl

end Coerce

end HostTables
