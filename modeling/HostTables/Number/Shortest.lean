/-
  HostTables.Number.Shortest — the shortest decimal that reads back as a double.

  The decimals that round to a finite double form an interval around it, closed when its
  significand is even. `shortest` takes the coarsest grid of multiples of a power of ten
  that has a point in the interval and, of the points of that grid, the nearest; a tie goes to
  the even multiple. `text` writes it: positional for decimal exponents from -5 to 15, with
  `.0` behind a whole number, and otherwise scientific with a signed exponent.
-/
import HostTables.Number.Double

namespace HostTables

/-- The decimal `digits · 10 ^ exponent`. -/
structure ShortDecimal where
  digits : Nat
  exponent : Int
  deriving DecidableEq, Repr

namespace Double

/-- The decimals that round to a double: between `low` and `high` quarters of its unit
`2 ^ exponent`, with the ends if `closed`; the double itself is `centre` quarters. -/
structure Interval where
  low : Nat
  centre : Nat
  high : Nat
  closed : Bool
  exponent : Int

/-- Half a unit to each side, but only a quarter below a power of two, where the doubles on
the lower side lie twice as close. -/
def interval (x : Double) : Interval where
  low := 4 * x.significand - if x.fractionField = 0 ∧ 1 < x.exponentField then 1 else 2
  centre := 4 * x.significand
  high := 4 * x.significand + 2
  closed := x.significand % 2 == 0
  exponent := x.exponent - 2

namespace Interval

/-- One step of the grid `10 ^ k` and one quarter of the interval, over a common measure. -/
def measures (i : Interval) (k : Int) : Nat × Nat :=
  (Nat.pow 10 k.toNat * Nat.pow 2 (-i.exponent).toNat,
    Nat.pow 2 i.exponent.toNat * Nat.pow 10 (-k).toNat)

/-- Whether the multiple `m` of `10 ^ k` lies in the interval. -/
def contains (i : Interval) (k : Int) (m : Nat) : Bool :=
  let (step, quarter) := i.measures k
  if i.closed then decide (i.low * quarter ≤ m * step) && decide (m * step ≤ i.high * quarter)
  else decide (i.low * quarter < m * step) && decide (m * step < i.high * quarter)

/-- The multiple of `10 ^ k` in the interval that is nearest to its centre. -/
def nearest? (i : Interval) (k : Int) : Option Nat :=
  let (step, quarter) := i.measures k
  let below := i.centre * quarter / step
  let twice := 2 * (i.centre * quarter % step)
  match i.contains k below, i.contains k (below + 1) with
  | true, true =>
    some (if twice < step ∨ (twice = step ∧ below % 2 = 0) then below else below + 1)
  | true, false => some below
  | false, true => some (below + 1)
  | false, false => none

/-- The first grid from `10 ^ k` downwards that has a point in the interval. -/
def search (i : Interval) : Nat → Int → ShortDecimal
  | 0, k => ⟨0, k⟩
  | grids + 1, k =>
    match i.nearest? k with
    | some m => ⟨m, k⟩
    | none => search i grids (k - 1)

end Interval

/-- The coarsest grid that any finite double lies on, and the number of grids down to the
finest one that is ever needed. -/
def coarsestGrid : Int := 309
def gridCount : Nat := 660

/-- The shortest decimal that rounds to the magnitude of a finite double. -/
def shortest (x : Double) : ShortDecimal :=
  if x.significand = 0 then ⟨0, 0⟩ else x.interval.search gridCount coarsestGrid

end Double

namespace ShortDecimal

/-- The decimal exponents that are written positionally. -/
def leastPositional : Int := -5
def greatestPositional : Int := 15

/-- Writes the decimal without sign. -/
def text (d : ShortDecimal) : Text :=
  let digits := Decimal.ofNat d.digits
  let scientific : Int := digits.length - 1 + d.exponent
  if leastPositional ≤ scientific ∧ scientific ≤ greatestPositional then
    if 0 ≤ d.exponent then digits ++ List.replicate d.exponent.toNat '0' ++ ".0".toList
    else if 0 ≤ scientific then
      digits.take (scientific.toNat + 1) ++ '.' :: digits.drop (scientific.toNat + 1)
    else "0.".toList ++ List.replicate (-scientific - 1).toNat '0' ++ digits
  else
    let fraction := match digits.drop 1 with
      | [] => []
      | more => '.' :: more
    let sign := if scientific < 0 then '-' else '+'
    digits.take 1 ++ fraction ++ 'e' :: sign :: Decimal.ofNat scientific.natAbs

end ShortDecimal

/-- The text of a finite double; a zero is `0.0` and keeps its sign. -/
def Double.text (x : Double) : Text :=
  let magnitude := x.shortest.text
  if x.isNegative then '-' :: magnitude else magnitude

end HostTables
