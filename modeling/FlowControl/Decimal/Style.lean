import FlowControl.Decimal.Shortest

/-!
# How a number is written

A number style says all that is left open by the shortest digits of a number: where
positional notation ends, what whole numbers carry after their digits, and how the numbers
without digits are written. There are two styles, one for messages and parameters and one
for JSON.
-/

namespace FlowControl

/-- The decisions of a number format. -/
structure NumberStyle where
  /-- Which of two equally near decimals is written. -/
  tie : Tie
  /-- Which decimal exponents of the leading digit are written without an exponent. -/
  positional : Int → Bool
  /-- What a whole number carries after its digits in positional notation. -/
  wholeSuffix : List Char
  /-- The text of what is not a number. -/
  notANumber : List Char
  /-- The text of an infinity, by its sign. -/
  infinite : Bool → List Char

namespace NumberStyle

/-- Messages and parameter texts never use an exponent and write whole numbers bare. -/
def plain : NumberStyle where
  tie := .up
  positional := fun _ => true
  wholeSuffix := []
  notANumber := ['N', 'a', 'N']
  infinite := fun negative => if negative then ['-', 'i', 'n', 'f'] else ['i', 'n', 'f']

/-- JSON numbers are positional from `0.00001` to below `10 ^ 16`, whole ones end in `.0`,
and what JSON cannot write is `null`. -/
def json : NumberStyle where
  tie := .toEven
  positional := fun e => decide (-5 ≤ e) && decide (e ≤ 15)
  wholeSuffix := ['.', '0']
  notANumber := ['n', 'u', 'l', 'l']
  infinite := fun _ => ['n', 'u', 'l', 'l']

/-- Digits in positional notation, the first of them `point` places before the point. -/
def positionalChars (style : NumberStyle) (digits : List Char) (point : Int) : List Char :=
  if (digits.length : Int) ≤ point then
    digits ++ List.replicate (point - digits.length).toNat '0' ++ style.wholeSuffix
  else if 0 < point then
    digits.take point.toNat ++ '.' :: digits.drop point.toNat
  else
    '0' :: '.' :: (List.replicate (-point).toNat '0' ++ digits)

/-- An exponent with its sign. -/
def exponentChars (e : Int) : List Char :=
  'e' :: (if e < 0 then '-' else '+') :: Nat.toDigits 10 e.natAbs

/-- Digits in exponent notation: one digit, the point if more follow, and the exponent. -/
def scientificChars (digits : List Char) (e : Int) : List Char :=
  match digits with
  | [] => exponentChars e
  | first :: [] => first :: exponentChars e
  | first :: more => first :: '.' :: (more ++ exponentChars e)

/-- A decimal in the style. -/
def decimalChars (style : NumberStyle) (d : Decimal) : List Char :=
  let digits := Nat.toDigits 10 d.coefficient
  let leading := d.exponent + digits.length - 1
  if style.positional leading then
    style.positionalChars digits (leading + 1)
  else
    scientificChars digits leading

/-- A minus sign where one is due. -/
def signChars (negative : Bool) : List Char :=
  if negative then ['-'] else []

/-- A number in the style. -/
def chars (style : NumberStyle) (x : Float) : List Char :=
  match FloatShape.ofFloat x with
  | .notANumber => style.notANumber
  | .infinite negative => style.infinite negative
  | .zero negative => signChars negative ++ style.decimalChars ⟨0, 0⟩
  | .finite negative m => signChars negative ++ style.decimalChars (m.shortest style.tie)

/-- The text of a number in the style. -/
def render (style : NumberStyle) (x : Float) : String :=
  String.ofList (style.chars x)

end NumberStyle

end FlowControl
