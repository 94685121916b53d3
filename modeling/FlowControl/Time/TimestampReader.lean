import FlowControl.Decimal.Numeral
import FlowControl.Text.Blank
import FlowControl.Time.Timestamp

/-!
# Reading time stamps

A time stamp is read from a date, a `T` or a blank, a time of day and the offset of its clock
from the zero meridian. Blanks may stand before every number and every mark between numbers.
A number out of the bounds of its place is refused where it stands, and what only the whole
text can tell, such as a 30th of February, after the whole text is read.
-/

namespace FlowControl

/-- Why a text is no time stamp. -/
inductive TimestampFault where
  /-- The text ends too early. -/
  | truncated
  /-- Another character stands where a part is expected. -/
  | malformed
  /-- A number is out of the bounds of its place, or there is no such day. -/
  | outOfRange
  /-- The moment lies before the earliest date or after the latest one. -/
  | impossible
  /-- The text goes on after the time stamp. -/
  | trailing
  deriving DecidableEq, Repr

namespace TimestampFault

/-- The message of a fault. -/
def message : TimestampFault → String
  | truncated => "premature end of input"
  | malformed => "input contains invalid characters"
  | outOfRange => "input is out of range"
  | impossible => "no possible date and time matching input"
  | trailing => "trailing input"

end TimestampFault

namespace Timestamp

/-- A text without the blanks at its front. -/
def skipBlanks (cs : List Char) : List Char := cs.dropWhile Text.isBlank

/-- The digits at the front of a text, one at least and `most` at most, and what follows
them. -/
def readDigits (most : Nat) (cs : List Char) :
    Except TimestampFault (List Char × List Char) :=
  let digits := (cs.take most).takeWhile Char.isDigit
  if cs.isEmpty then .error .truncated
  else if digits.isEmpty then .error .malformed
  else .ok (digits, cs.drop digits.length)

/-- Refuses what is out of bounds. -/
def require (inBounds : Bool) : Except TimestampFault Unit :=
  if inBounds then .ok () else .error .outOfRange

/-- A number of two digits at most within bounds, blanks before it set aside. -/
def readField (least greatest : Nat) (cs : List Char) :
    Except TimestampFault (Nat × List Char) := do
  let (digits, rest) ← readDigits 2 (skipBlanks cs)
  let n := Numeral.ofDigits digits
  require (decide (least ≤ n) && decide (n ≤ greatest))
  return (n, rest)

/-- A year of any number of digits, which must fit a signed 32-bit word. -/
def readLongYear (negative : Bool) (cs : List Char) :
    Except TimestampFault (Int × List Char) := do
  let (digits, rest) ← readDigits cs.length cs
  let size : Int := Numeral.ofDigits digits
  let year := if negative then -size else size
  require (decide (-2147483648 ≤ year) && decide (year ≤ 2147483647))
  return (year, rest)

/-- A year: four digits at most, or any number of them after a sign. -/
def readYear (cs : List Char) : Except TimestampFault (Int × List Char) :=
  match skipBlanks cs with
  | '-' :: body => readLongYear true body
  | '+' :: body => readLongYear false body
  | body => (readDigits 4 body).map fun (digits, rest) => ((Numeral.ofDigits digits : Int), rest)

/-- What follows a mark, blanks before it set aside. -/
def readMark (mark : Char) (cs : List Char) : Except TimestampFault (List Char) :=
  match skipBlanks cs with
  | [] => .error .truncated
  | c :: rest => if c = mark then .ok rest else .error .malformed

/-- What follows the character between a date and a time. -/
def readSeparator : List Char → Except TimestampFault (List Char)
  | [] => .error .truncated
  | c :: rest => if c = 'T' ∨ c = 't' ∨ c = ' ' then .ok rest else .error .malformed

/-- The nanoseconds of the digits after a point, if there is a point. Digits after the ninth
do not count. -/
def readFraction : List Char → Except TimestampFault (Nat × List Char)
  | '.' :: cs => do
    let (digits, rest) ← readDigits 9 cs
    return (Numeral.ofDigits digits * Nat.pow 10 (9 - digits.length),
      rest.dropWhile Char.isDigit)
  | cs => .ok (0, cs)

/-- A number of exactly two digits. -/
def readPair : List Char → Except TimestampFault (Nat × List Char)
  | [] => .error .truncated
  | [c] => if c.utf8Size = 1 then .error .truncated else .error .malformed
  | c :: d :: rest =>
    if c.isDigit && d.isDigit then .ok (Numeral.ofDigits [c, d], rest) else .error .malformed

/-- The minutes of an offset after its sign: hours, colons or blanks, and minutes. -/
def readOffsetSize (cs : List Char) : Except TimestampFault (Nat × List Char) := do
  let (hours, afterHours) ← readPair cs
  let (minutes, rest) ←
    readPair (afterHours.dropWhile fun c => decide (c = ':') || Text.isBlank c)
  require (decide (minutes ≤ 59))
  return (60 * hours + minutes, rest)

/-- The minutes by which a clock is ahead: none of them for `Z` or `UTC` in any case, or a
sign and an offset. A minus sign has two forms. -/
def readOffset (cs : List Char) : Except TimestampFault (Int × List Char) :=
  if (cs.take 3).map Char.toLower = ['u', 't', 'c'] then .ok (0, cs.drop 3)
  else
    match cs with
    | [] => .error .truncated
    | c :: rest =>
      if c = 'Z' ∨ c = 'z' then .ok (0, rest)
      else if c = '+' then
        (readOffsetSize rest).map fun (minutes, after) => ((minutes : Int), after)
      else if c = '-' ∨ c = '\u2212' then
        (readOffsetSize rest).map fun (minutes, after) => (-(minutes : Int), after)
      else .error .malformed

/-- The date at the front of a text by its year, month and day, and what follows it. -/
def readDate (cs : List Char) : Except TimestampFault ((Int × Nat × Nat) × List Char) := do
  let (year, afterYear) ← readYear cs
  let (month, afterMonth) ← readField 1 12 (← readMark '-' afterYear)
  let (day, rest) ← readField 1 31 (← readMark '-' afterMonth)
  return ((year, month, day), rest)

/-- The time of day at the front of a text by its minute and the nanoseconds in that, and
what follows it. -/
def readTime (cs : List Char) : Except TimestampFault ((Nat × Nat) × List Char) := do
  let (hour, afterHour) ← readField 0 23 cs
  let (minute, afterMinute) ← readField 0 59 (← readMark ':' afterHour)
  let (second, afterSecond) ← readField 0 60 (← readMark ':' afterMinute)
  let (nanos, rest) ← readFraction afterSecond
  return ((60 * hour + minute, nanosPerSecond * second + nanos), rest)

/-- The time stamp that a list of characters is. -/
def ofChars (cs : List Char) : Except TimestampFault Timestamp := do
  let ((year, month, day), afterDate) ← readDate cs
  let ((minute, nanos), afterTime) ← readTime (← readSeparator afterDate)
  let (ahead, rest) ← readOffset (skipBlanks afterTime)
  if !(skipBlanks rest).isEmpty then throw .trailing
  match Date.ofParts? year month day with
  | none => throw .outOfRange
  | some date =>
    if minutesPerDay ≤ ahead.natAbs then throw .outOfRange
    match ofClock? date minute nanos ahead with
    | none => throw .impossible
    | some t => return t

/-- The time stamp that a text is. -/
def parse (text : String) : Except TimestampFault Timestamp := ofChars text.toList

end Timestamp

end FlowControl
