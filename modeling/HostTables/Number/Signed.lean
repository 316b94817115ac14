/-
  HostTables.Number.Signed — integers of a fixed width.

  Columns hold 32-, 64- and 128-bit signed integers. A `Signed w` is an integer together
  with the proof that it lies in the two's complement range of `w` bits, so a value out of
  range cannot be put into a column.
-/

namespace HostTables

/-- How many words of `width` bits there are on either side of zero. -/
def Signed.bound (width : Nat) : Nat := Nat.pow 2 (width - 1)

/-- An integer in the range of a signed word of `width` bits. -/
@[ext] structure Signed (width : Nat) where
  val : Int
  min_le : -(Signed.bound width : Int) ≤ val
  lt_max : val < Signed.bound width
  deriving DecidableEq, Repr

namespace Signed

theorem bound_pos (width : Nat) : 0 < bound width := Nat.pow_pos (by decide)

/-- The integer as a signed word, if it is in range. -/
def ofInt? (width : Nat) (n : Int) : Option (Signed width) :=
  if h : -(bound width : Int) ≤ n ∧ n < bound width then some ⟨n, h.1, h.2⟩ else none

/-- The largest signed word. -/
def maxValue (width : Nat) : Signed width where
  val := bound width - 1
  min_le := by
    have := bound_pos width
    omega
  lt_max := by omega

/-- The smallest signed word. -/
def minValue (width : Nat) : Signed width where
  val := -bound width
  min_le := Int.le_refl _
  lt_max := by
    have := bound_pos width
    omega

/-- The nearest signed word: integers out of range become the end they are beyond. -/
def clamp (width : Nat) (n : Int) : Signed width :=
  match ofInt? width n with
  | some word => word
  | none => if n < 0 then minValue width else maxValue width

theorem ofInt?_eq_some_iff {width : Nat} {n : Int} {word : Signed width} :
    ofInt? width n = some word ↔ word.val = n := by
  unfold ofInt?
  split
  · rw [Option.some.injEq, Signed.ext_iff]
    exact eq_comm
  · next h =>
    constructor
    · intro impossible
      cases impossible
    · rintro rfl
      exact absurd ⟨word.min_le, word.lt_max⟩ h

/-- Of the integers that are not negative, only those above the largest word change. -/
theorem val_clamp_of_nonneg {width : Nat} {n : Int} (h : 0 ≤ n) : (clamp width n).val = min n (maxValue width).val := by
  have hmax : (maxValue width).val = bound width - 1 := rfl
  unfold clamp
  split
  · rename_i word hword
    have hlt := word.lt_max
    rw [ofInt?_eq_some_iff] at hword
    omega
  · rename_i hnone
    unfold ofInt? at hnone
    split at hnone
    · cases hnone
    · rw [if_neg (by omega)]
      omega

end Signed

end HostTables
