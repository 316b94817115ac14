/-
  HostTables.Proofs.Number.Rounding — rounding to whole numbers, ties away from zero.

  `RoundsAway x n`: no whole number is nearer to `x` than `n`, and of two that are as near `n` is
  the one further from zero. The rule is the same on both sides of zero (`roundsAway_neg`) and keeps the
  order (`roundsAway_mono`), and on the positive side it is the floor of a half more (`roundsAway_iff_floor`).
  So a larger number is rounded to the same as a smaller one unless a tie lies between them
  (`roundsAway_iff_no_tie`), and to the next if one does and they are less than one apart (`roundsAway_succ`).
-/
import Mathlib.Algebra.Order.Floor.Ring
import Mathlib.Data.Rat.Floor
import Mathlib.Tactic.Linarith

namespace HostTables

/-- The whole number is the nearest; of two it is the one that is further from zero. -/
structure RoundsAway (x : ℚ) (n : ℤ) : Prop where
  near : |x - n| ≤ 1 / 2
  away : |x - n| = 1 / 2 → |x| < |(n : ℚ)|

theorem roundsAway_neg {x : ℚ} {n : ℤ} : RoundsAway (-x) (-n) ↔ RoundsAway x n := by
  have hdistance : |-x - ((-n : ℤ) : ℚ)| = |x - n| := by
    rw [Int.cast_neg, neg_sub_neg, abs_sub_comm]
  have hsize : |((-n : ℤ) : ℚ)| = |(n : ℚ)| := by rw [Int.cast_neg, abs_neg]
  constructor
  · intro h
    exact ⟨hdistance ▸ h.near, fun htie => by simpa [hsize] using h.away (hdistance.trans htie)⟩
  · intro h
    exact ⟨hdistance.le.trans h.near, fun htie => by simpa [hsize] using h.away (hdistance.symm.trans htie)⟩

/-- A larger number is not rounded to less. -/
theorem roundsAway_mono {x y : ℚ} {m n : ℤ} (hle : x ≤ y) (hx : RoundsAway x m) (hy : RoundsAway y n) : m ≤ n := by
  by_contra hlt
  have hnext : (n : ℚ) + 1 ≤ m := by exact_mod_cast Int.not_le.mp hlt
  obtain ⟨hlow, -⟩ := abs_le.mp hx.near
  obtain ⟨-, hhigh⟩ := abs_le.mp hy.near
  -- Both numbers are the half between the two whole ones, which then are rounded away from each other.
  have hxhalf : x = n + 1 / 2 := by linarith
  have hyhalf : y = n + 1 / 2 := by linarith
  have hm : (m : ℚ) = n + 1 := by linarith
  have habove := sq_lt_sq.mpr (hx.away (by rw [hxhalf, hm]; norm_num))
  have hbelow := sq_lt_sq.mpr (hy.away (by rw [hyhalf]; norm_num))
  rw [hxhalf, hm] at habove
  rw [hyhalf] at hbelow
  have hneg : n < 0 := by
    have : (n : ℚ) < 0 := by linarith
    exact_mod_cast this
  have hone : (n : ℚ) ≤ -1 := by exact_mod_cast Int.le_sub_one_of_lt hneg
  linarith

theorem RoundsAway.unique {x : ℚ} {m n : ℤ} (hm : RoundsAway x m) (hn : RoundsAway x n) : m = n :=
  le_antisymm (roundsAway_mono le_rfl hm hn) (roundsAway_mono le_rfl hn hm)

/-- A whole number that is at most half below a number that is not negative is not negative itself. -/
theorem nonneg_of_near {x : ℚ} {n : ℤ} (hx : 0 ≤ x) (hn : x < n + 1) : 0 ≤ n := by
  have hlt : (-1 : ℚ) < n := by linarith
  have hint : (-1 : ℤ) < n := by exact_mod_cast hlt
  omega

theorem roundsAway_iff_floor {x : ℚ} {n : ℤ} (hx : 0 ≤ x) : RoundsAway x n ↔ ⌊x + 1 / 2⌋ = n := by
  rw [Int.floor_eq_iff]
  constructor
  · intro h
    obtain ⟨hlow, hhigh⟩ := abs_le.mp h.near
    refine ⟨by linarith, lt_of_le_of_ne (by linarith) ?_⟩
    -- The whole number half below is the nearer one to zero.
    intro htie
    have hn : 0 ≤ n := nonneg_of_near hx (by linarith)
    have haway := h.away (by rw [show x - n = 1 / 2 by linarith]; norm_num)
    rw [abs_of_nonneg hx, abs_of_nonneg (by exact_mod_cast hn)] at haway
    linarith
  · rintro ⟨hlow, hhigh⟩
    have hn : (0 : ℚ) ≤ n := by exact_mod_cast nonneg_of_near hx (by linarith)
    refine ⟨abs_le.mpr ⟨by linarith, by linarith⟩, ?_⟩
    intro htie
    rw [abs_of_nonneg hx, abs_of_nonneg hn]
    rcases abs_eq (by norm_num : (0 : ℚ) ≤ 1 / 2) |>.mp htie with h | h
    · linarith
    · linarith

variable {x y : ℚ} {m : ℤ}

/-- A half between two whole numbers that the larger number reaches and the smaller one does not. -/
def TieBetween (x y : ℚ) : Prop := ∃ n : ℕ, x < n + 1 / 2 ∧ (n : ℚ) + 1 / 2 ≤ y

theorem roundsAway_iff_no_tie (hx : 0 ≤ x) (hle : x ≤ y) (h : RoundsAway x m) : RoundsAway y m ↔ ¬ TieBetween x y := by
  have hfloor := (roundsAway_iff_floor hx).mp h
  obtain ⟨hlow, hhigh⟩ := Int.floor_eq_iff.mp hfloor
  rw [roundsAway_iff_floor (hx.trans hle), Int.floor_eq_iff]
  constructor
  · rintro ⟨-, hbelow⟩ ⟨n, hn, hreach⟩
    have hmn : m < n + 1 := by
      have : (m : ℚ) < n + 1 := by linarith
      exact_mod_cast this
    have hnm : (n : ℤ) + 1 < m + 1 := by
      have : (n : ℚ) + 1 < m + 1 := by linarith
      exact_mod_cast this
    omega
  · intro hno
    refine ⟨by linarith, lt_of_not_ge fun hreach => hno ?_⟩
    have hm : 0 ≤ m := nonneg_of_near hx (by linarith)
    refine ⟨m.toNat, ?_⟩
    have hcast : ((m.toNat : ℕ) : ℚ) = m := by exact_mod_cast Int.toNat_of_nonneg hm
    rw [hcast]
    exact ⟨by linarith, by linarith⟩

/-- A half is a whole number of steps of which two times as many make up one, so none lies between a
    number of steps and the next. -/
theorem not_tieBetween_of_steps (kept : ℕ) {steps : ℕ} (hsteps : 0 < steps) (hx : x = kept / (2 * steps))
    (hy : y < (kept + 1) / (2 * steps)) : ¬ TieBetween x y := by
  rintro ⟨n, hn, hreach⟩
  have hpos : (0 : ℚ) < 2 * steps := by positivity
  have hbelow : kept < (2 * n + 1) * steps := by
    rw [hx, div_lt_iff₀ hpos] at hn
    have : (kept : ℚ) < (2 * n + 1) * steps := by linarith
    exact_mod_cast this
  have habove : (2 * n + 1) * steps < kept + 1 := by
    have hlt := hreach.trans_lt hy
    rw [lt_div_iff₀ hpos] at hlt
    have : ((2 * n + 1) * steps : ℚ) < kept + 1 := by linarith
    exact_mod_cast this
  omega

theorem roundsAway_succ (hx : 0 ≤ x) (hlt : y < x + 1) (h : RoundsAway x m) (htie : TieBetween x y) :
    RoundsAway y (m + 1) := by
  obtain ⟨n, hn, hreach⟩ := htie
  obtain ⟨hlow, hhigh⟩ := Int.floor_eq_iff.mp ((roundsAway_iff_floor hx).mp h)
  have hmn : m < n + 1 := by
    have : (m : ℚ) < n + 1 := by linarith
    exact_mod_cast this
  have hle : (m : ℚ) ≤ n := by exact_mod_cast Int.lt_add_one_iff.mp hmn
  rw [roundsAway_iff_floor (by linarith), Int.floor_eq_iff]
  push_cast
  exact ⟨by linarith, by linarith⟩

end HostTables
