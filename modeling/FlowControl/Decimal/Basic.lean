/-!
# Decimal numbers and binary64

A decimal is a natural coefficient times a power of ten. This file holds the exact
correspondence between decimals and binary64 numbers: the binary64 number nearest to a
decimal, the magnitude of a finite binary64 number as a coefficient times a power of two,
and the decimals that read back as a given magnitude.
-/

namespace FlowControl

/-- The number of 64-bit words, `2 ^ 64`. -/
def wordCount : Nat := 18446744073709551616

open Float.Model (UnpackedFloat)

/-- The number `coefficient * 10 ^ exponent`. -/
structure Decimal where
  coefficient : Nat
  exponent : Int
  deriving DecidableEq, Repr

namespace Decimal

/-- The binary64 number nearest to a decimal. A decimal half way between two neighbours
goes to the one with the even significand, and one beyond the range is infinite. -/
def toFloat (d : Decimal) : Float :=
  Float.ofModel (Float.Model.ofScientific d.coefficient d.exponent)

/-- The binary64 number nearest to a signed decimal. -/
def toSignedFloat (negative : Bool) (d : Decimal) : Float :=
  if negative then -d.toFloat else d.toFloat

/-- The quotient `numerator / denominator` rounded to the nearest natural number, a half
going to the even neighbour. -/
def roundHalfEven (numerator denominator : Nat) : Nat :=
  let quotient := numerator / denominator
  let remainder := numerator % denominator
  if 2 * remainder > denominator ∨ (2 * remainder = denominator ∧ quotient % 2 = 1) then
    quotient + 1
  else
    quotient

end Decimal

/-- The positive number `significand * 2 ^ exponent`. For a binary64 number the significand
is below `2 ^ 53`, and it is at least `2 ^ 52` unless the exponent is the least one. -/
structure Magnitude where
  significand : Nat
  exponent : Int
  deriving DecidableEq, Repr

namespace Magnitude

/-- The exponent of the least positive binary64 number. -/
def leastExponent : Int := -1074

/-- The least significand of a normal binary64 number, `2 ^ 52`. -/
def leastNormal : Nat := 4503599627370496

/-- The magnitude as a fraction of natural numbers. -/
def numerator (m : Magnitude) : Nat :=
  m.significand * Nat.pow 2 m.exponent.toNat

/-- The denominator of the magnitude as a fraction of natural numbers. -/
def denominator (m : Magnitude) : Nat :=
  Nat.pow 2 (-m.exponent).toNat

/-- The least of the reals that round to the magnitude, in quarters of its last place.
Below a power of two the neighbour is only half as far away. -/
def lowest (m : Magnitude) : Nat :=
  if m.significand = leastNormal ∧ m.exponent ≠ leastExponent then
    4 * m.significand - 1
  else
    4 * m.significand - 2

/-- The greatest of the reals that round to the magnitude, in quarters of its last place. -/
def highest (m : Magnitude) : Nat :=
  4 * m.significand + 2

/-- Whether the decimal `coefficient * 10 ^ exponent` rounds to the magnitude. The two ends
of the interval round to it exactly when its significand is even. -/
def contains (m : Magnitude) (d : Decimal) : Bool :=
  let quarters := 4 * d.coefficient * Nat.pow 10 d.exponent.toNat * m.denominator
  let unit := Nat.pow 10 (-d.exponent).toNat * Nat.pow 2 m.exponent.toNat
  if m.significand % 2 = 0 then
    decide (m.lowest * unit ≤ quarters) && decide (quarters ≤ m.highest * unit)
  else
    decide (m.lowest * unit < quarters) && decide (quarters < m.highest * unit)

/-- The magnitude written out in full as a decimal. -/
def exactDecimal (m : Magnitude) : Decimal :=
  if 0 ≤ m.exponent then
    ⟨m.significand * Nat.pow 2 m.exponent.toNat, 0⟩
  else
    ⟨m.significand * Nat.pow 5 (-m.exponent).toNat, m.exponent⟩

end Magnitude

/-- What a binary64 number is: not a number, infinite, zero, or a signed magnitude. -/
inductive FloatShape where
  /-- No number at all. -/
  | notANumber
  /-- An infinity. -/
  | infinite (negative : Bool)
  /-- A zero, which has a sign as well. -/
  | zero (negative : Bool)
  /-- A finite number other than zero. -/
  | finite (negative : Bool) (magnitude : Magnitude)
  deriving DecidableEq, Repr

namespace FloatShape

/-- Whether a sign is the negative one. -/
def isNegative : UnpackedFloat.Sign → Bool
  | .negative => true
  | .positive => false

/-- The shape of an unpacked binary64 number. -/
def ofUnpacked : UnpackedFloat → FloatShape
  | .notANumber => .notANumber
  | .infinity sign => .infinite (isNegative sign)
  | .zero sign => .zero (isNegative sign)
  | .finite sign significand exponent _ => .finite (isNegative sign) ⟨significand, exponent⟩

/-- The shape of a binary64 number. -/
def ofFloat (x : Float) : FloatShape :=
  ofUnpacked x.toModel.unpack

end FloatShape

/-- Positive infinity, the rate of a flow that nothing limits. -/
def unbounded : Float := Float.ofBits 0x7ff0000000000000

end FlowControl
