import FlowControl.Decimal.Basic

/-!
# Numbers in texts

The grammar of the numbers that parameters, options and environment variables hold. A real
number has an optional sign and then `inf`, `infinity` or `nan` in any case, or digits with
an optional point and an optional exponent; it is read as the nearest binary64 number. A
word is an unsigned whole number below `2 ^ 64`. Nothing else, no blank either, is a number.
-/

namespace FlowControl.Numeral

/-- The longest digits at the front of a text, and what follows them. -/
def spanDigits (cs : List Char) : List Char × List Char :=
  (cs.takeWhile Char.isDigit, cs.dropWhile Char.isDigit)

/-- The natural number that decimal digits stand for. -/
def ofDigits (digits : List Char) : Nat :=
  Nat.ofDigitChars 10 digits 0

/-- A text without the sign at its front, and whether that sign is a minus. -/
def splitSign : List Char → Bool × List Char
  | '-' :: cs => (true, cs)
  | '+' :: cs => (false, cs)
  | cs => (false, cs)

/-- The exponent at the end of a number: nothing at all, or `e` with a signed whole number. -/
def exponent? : List Char → Option Int
  | [] => some 0
  | c :: cs =>
    if c = 'e' ∨ c = 'E' then
      let (negative, body) := splitSign cs
      let (digits, rest) := spanDigits body
      if digits.isEmpty || !rest.isEmpty then none
      else if negative then some (-(ofDigits digits : Int))
      else some (ofDigits digits)
    else
      none

/-- The digits after the point at the front of a text, if there is a point. -/
def spanFraction : List Char → List Char × List Char
  | '.' :: cs => spanDigits cs
  | cs => ([], cs)

/-- An unsigned decimal: digits with an optional point, at least one digit in all, and an
optional exponent. -/
def decimal? (cs : List Char) : Option Decimal :=
  let (whole, afterWhole) := spanDigits cs
  let (fraction, afterFraction) := spanFraction afterWhole
  if whole.isEmpty && fraction.isEmpty then none
  else
    (exponent? afterFraction).map fun e =>
      ⟨ofDigits (whole ++ fraction), e - fraction.length⟩

/-- The names of the numbers that have no digits, in any case. -/
def named? (cs : List Char) : Option Float :=
  let name := cs.map Char.toLower
  if name = ['i', 'n', 'f'] ∨ name = ['i', 'n', 'f', 'i', 'n', 'i', 't', 'y'] then some unbounded
  else if name = ['n', 'a', 'n'] then some (Float.ofBits 0x7ff8000000000000)
  else none

/-- The real number that a text is, if it is one. -/
def real? (cs : List Char) : Option Float :=
  let (negative, body) := splitSign cs
  match decimal? body with
  | some d => some (d.toSignedFloat negative)
  | none => (named? body).map fun x => if negative then -x else x

/-- The word that a text is, if it is one: an optional plus and digits. -/
def word? (cs : List Char) : Option UInt64 :=
  let digits := match cs with
    | '+' :: rest => rest
    | _ => cs
  if digits.isEmpty || !digits.all Char.isDigit then none
  else if ofDigits digits < wordCount then some (ofDigits digits).toUInt64
  else none

end FlowControl.Numeral
