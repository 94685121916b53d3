import FlowControl.Decimal.Basic

/-!
# Shortest decimals

The shortest decimal of a magnitude is the one with the fewest digits among the decimals
that read back as it, and of those the one nearest to it. It lies on the coarsest decimal
grid `10 ^ k` that has a point in the magnitude's rounding interval, and there it is one of
the two grid points around the magnitude.
-/

namespace FlowControl

/-- Which of two equally near decimals is taken. -/
inductive Tie where
  /-- The greater one. -/
  | up
  /-- The one whose last digit is even. -/
  | toEven
  deriving DecidableEq, Repr

namespace Magnitude

/-- The magnitude divided by `10 ^ k`, as a fraction of natural numbers. -/
def onGrid (m : Magnitude) (k : Int) : Nat × Nat :=
  (m.numerator * Nat.pow 10 (-k).toNat, m.denominator * Nat.pow 10 k.toNat)

/-- Of the two points of the grid `10 ^ k` around the magnitude, the nearest one that reads
back as it, if any does. -/
def nearestOnGrid? (m : Magnitude) (tie : Tie) (k : Int) : Option Decimal :=
  let (numerator, denominator) := m.onGrid k
  let below := numerator / denominator
  let twice := 2 * (numerator % denominator)
  let lower : Decimal := ⟨below, k⟩
  let upper : Decimal := ⟨below + 1, k⟩
  let upperFirst : Bool :=
    decide (denominator < twice) ||
      (decide (denominator = twice) && (decide (tie = .up) || decide (below % 2 = 1)))
  match m.contains lower, m.contains upper with
  | true, true => if upperFirst then some upper else some lower
  | true, false => some lower
  | false, true => some upper
  | false, false => none

/-- A grid so coarse that none coarser has a point in the rounding interval: the magnitude
is below `2 ^ bits`, and `30103 / 100000` is a little more than the logarithm of two. -/
def coarsestGrid (m : Magnitude) : Int :=
  (m.significand.log2 + 1 + m.exponent) * 30103 / 100000 + 1

/-- Tries `fuel` grids from `10 ^ k` down, each ten times finer than the one before. -/
def searchGrids (m : Magnitude) (tie : Tie) : (fuel : Nat) → (k : Int) → Decimal
  | 0, _ => m.exactDecimal
  | fuel + 1, k => (m.nearestOnGrid? tie k).getD (m.searchGrids tie fuel (k - 1))

/-- The shortest decimal that reads back as the magnitude. Seventeen digits always suffice,
so twenty grids do. -/
def shortest (m : Magnitude) (tie : Tie) : Decimal :=
  m.searchGrids tie 20 m.coarsestGrid

end Magnitude

end FlowControl
