import FlowControl.Decimal.Numeral
import FlowControl.Json.Text

/-!
# JSON numbers

A JSON number is read in two steps. First its digits are taken apart as the grammar says.
Then its value is found: a whole number stays whole if it fits a 64-bit word, and any other
number becomes the leading digits that fit such a word, multiplied or divided by a power of
ten. That takes two roundings, so the result may miss the nearest binary64 number by a unit
in the last place. A number too large for binary64 is malformed.
-/

namespace FlowControl.Json

/-- The parts of a JSON number. -/
structure Numeral where
  negative : Bool
  whole : List Char
  /-- The digits after the point, if there is one. -/
  fraction : Option (List Char)
  /-- Whether the exponent is negative and its digits, if there is one. -/
  exponent : Option (Bool × List Char)
  deriving DecidableEq, Repr

/-- What a JSON number stands for. -/
inductive Number where
  /-- An unsigned whole number. -/
  | word (value : UInt64)
  /-- A negative whole number by its absolute value, which is at most `2 ^ 63`. -/
  | negative (magnitude : UInt64)
  /-- A real number. -/
  | real (value : Float)

namespace Numeral

open FlowControl.Numeral (spanDigits splitSign ofDigits)

/-- The fault of digits that are missing: the text ends too early, or it goes on wrongly. -/
def missingDigits (rest : List Char) : TextFault :=
  if rest.isEmpty then .truncated else .malformed

/-- The digits before the point. Only the number zero starts with a zero. -/
def scanWhole (cs : List Char) : Except TextFault (List Char × List Char) :=
  let (digits, rest) := spanDigits cs
  match digits with
  | [] => .error (missingDigits rest)
  | '0' :: _ :: _ => .error .malformed
  | _ => .ok (digits, rest)

/-- The point and the digits after it, if there is a point. -/
def scanFraction : List Char → Except TextFault (Option (List Char) × List Char)
  | '.' :: cs =>
    let (digits, rest) := spanDigits cs
    if digits.isEmpty then .error (missingDigits rest) else .ok (some digits, rest)
  | cs => .ok (none, cs)

/-- The exponent, if there is one. -/
def scanExponent : List Char → Except TextFault (Option (Bool × List Char) × List Char)
  | [] => .ok (none, [])
  | c :: cs =>
    if c = 'e' ∨ c = 'E' then
      let (negative, body) := splitSign cs
      let (digits, rest) := spanDigits body
      if digits.isEmpty then .error (missingDigits rest) else .ok (some (negative, digits), rest)
    else .ok (none, c :: cs)

/-- The number at the front of a text after its sign, and what follows it. -/
def scan (negative : Bool) (cs : List Char) : Except TextFault (Numeral × List Char) := do
  let (whole, afterWhole) ← scanWhole cs
  let (fraction, afterFraction) ← scanFraction afterWhole
  let (exponent, rest) ← scanExponent afterFraction
  return (⟨negative, whole, fraction, exponent⟩, rest)

/-- Appends digits to a word as long as it stays one, and the digits that are left over. -/
def appendDigits (word : Nat) : List Char → Nat × List Char
  | [] => (word, [])
  | c :: cs =>
    let next := 10 * word + (c.toNat - '0'.toNat)
    if next < wordCount then appendDigits next cs else (word, c :: cs)

/-- A power of ten as a binary64 number. -/
def tenTo (n : Nat) : Float := Decimal.toFloat ⟨1, n⟩

/-- The largest power of ten that is a binary64 number has this exponent. -/
def greatestTenExponent : Nat := 308

/-- Multiplies or divides by a power of ten. An exponent beyond the greatest one is taken
in pieces, which a word survives twice at most before it is zero. -/
def scale : (pieces : Nat) → Float → Int → Except TextFault Float
  | pieces, x, e =>
    if e.natAbs ≤ greatestTenExponent then
      if 0 ≤ e then
        let product := x * tenTo e.natAbs
        if product.isInf then .error .malformed else .ok product
      else .ok (x / tenTo e.natAbs)
    else if x == 0 then .ok x
    else if 0 ≤ e then .error .malformed
    else
      match pieces with
      | 0 => .ok 0
      | pieces + 1 =>
        scale pieces (x / tenTo greatestTenExponent) (e + greatestTenExponent)

/-- The number with a sign. -/
def signed (negative : Bool) (x : Float) : Float := if negative then -x else x

/-- The largest exponent that can be written, `2 ^ 31 - 1`. -/
def greatestExponent : Nat := 2147483647

/-- The real number of a significand with a decimal exponent and the exponent that was
written. -/
def real (negative : Bool) (significand : Nat) (shift : Int) :
    Option (Bool × List Char) → Except TextFault Float
  | none => (scale 3 significand.toUInt64.toFloat shift).map (signed negative)
  | some (negativeExponent, digits) =>
    let e := ofDigits digits
    if greatestExponent < e then
      if significand ≠ 0 ∧ !negativeExponent then .error .malformed
      else .ok (signed negative 0)
    else
      let total := if negativeExponent then shift - e else shift + e
      (scale 3 significand.toUInt64.toFloat total).map (signed negative)

/-- The greatest absolute value of a negative whole number, `2 ^ 63`. -/
def signedLimit : Nat := 9223372036854775808

/-- The whole number of a significand. -/
def wholeNumber (negative : Bool) (significand : Nat) : Number :=
  if !negative then .word significand.toUInt64
  else if 0 < significand ∧ significand ≤ signedLimit then .negative significand.toUInt64
  else .real (-significand.toUInt64.toFloat)

/-- The number that the parts stand for. -/
def value (numeral : Numeral) : Except TextFault Number :=
  let (whole, unread) := appendDigits 0 numeral.whole
  if unread.isEmpty && numeral.fraction.isNone && numeral.exponent.isNone then
    .ok (wholeNumber numeral.negative whole)
  else
    let fraction := numeral.fraction.getD []
    let (significand, unreadFraction) := appendDigits whole fraction
    let shift : Int := unread.length - (fraction.length - unreadFraction.length : Nat)
    (real numeral.negative significand shift numeral.exponent).map .real

end Numeral

namespace Number

/-- The number at the front of a text after its sign, and what follows it. -/
def read (negative : Bool) (cs : List Char) : Except TextFault (Number × List Char) := do
  let (numeral, rest) ← Numeral.scan negative cs
  let number ← numeral.value
  return (number, rest)

/-- The number as a binary64 number. -/
def toFloat : Number → Float
  | word value => value.toFloat
  | negative magnitude => -magnitude.toFloat
  | real value => value

/-- What follows a number that nobody looks at. Digits that are missing are malformed even at
the end of the text, and no number is too large. -/
def skip (cs : List Char) : Except TextFault (List Char) :=
  match Numeral.scan false cs with
  | .ok (_, rest) => .ok rest
  | .error _ => .error .malformed

end Number

end FlowControl.Json
