import FlowControl.Time.Date
import FlowControl.Time.Span

/-!
# Time stamps

A time stamp is a moment on the wall clock of the zero meridian: a date, a minute of that day
and the nanoseconds in that minute. Any minute may have a leap second, its sixty-first. A
time stamp is written with as many digits after the second as it needs, in groups of three.
-/

namespace FlowControl

/-- Minutes in a day. -/
def minutesPerDay : Nat := 1440

/-- Nanoseconds in a minute that has a leap second. -/
def nanosPerLongMinute : Nat := 61 * nanosPerSecond

/-- A moment on the wall clock. -/
structure Timestamp where
  date : Date
  /-- The minutes since midnight. -/
  minute : Nat
  /-- The nanoseconds since the minute began. -/
  nanos : Nat
  minute_lt : minute < minutesPerDay
  nanos_lt : nanos < nanosPerLongMinute
  deriving DecidableEq, Repr

namespace Timestamp

/-- The start of 1970. -/
def epoch : Timestamp := ⟨.epoch, 0, 0, by decide, by decide⟩

/-- The moment with a date, a minute of the day and nanoseconds in that minute, if there is
one. -/
def ofParts? (date : Date) (minute nanos : Nat) : Option Timestamp :=
  if hm : minute < minutesPerDay then
    if hn : nanos < nanosPerLongMinute then some ⟨date, minute, nanos, hm, hn⟩ else none
  else none

/-- The moment at which a clock that is ahead by some minutes, less than a day of them, shows
a date and a time. -/
def ofClock? (date : Date) (minute nanos : Nat) (ahead : Int) : Option Timestamp := do
  let shifted : Int := minute - ahead
  let day ←
    if shifted < 0 then date.previous?
    else if minutesPerDay ≤ shifted then date.next?
    else some date
  ofParts? day (shifted % minutesPerDay).toNat nanos

/-- The hour of a time stamp. -/
def hour (t : Timestamp) : Nat := t.minute / 60

/-- The minute of a time stamp within its hour. -/
def minuteOfHour (t : Timestamp) : Nat := t.minute % 60

/-- The second of a time stamp within its minute, sixty for a leap second. -/
def second (t : Timestamp) : Nat := t.nanos / nanosPerSecond

/-- The nanoseconds of a time stamp past its second. -/
def subsecNanos (t : Timestamp) : Nat := t.nanos % nanosPerSecond

/-- The digits of a number, with zeros before them up to a width. -/
def padded (width n : Nat) : List Char :=
  let digits := Nat.toDigits 10 n
  List.replicate (width - digits.length) '0' ++ digits

/-- A year in four digits. One that takes more of them, or is below zero, has its sign. -/
def yearChars (year : Int) : List Char :=
  if 0 ≤ year ∧ year ≤ 9999 then padded 4 year.natAbs
  else (if year < 0 then '-' else '+') :: padded 4 year.natAbs

/-- The point and the digits of nanoseconds past a second: none, three, six or nine. -/
def fractionChars (nanos : Nat) : List Char :=
  if nanos = 0 then []
  else if nanos % 1000000 = 0 then '.' :: padded 3 (nanos / 1000000)
  else if nanos % 1000 = 0 then '.' :: padded 6 (nanos / 1000)
  else '.' :: padded 9 nanos

/-- A time stamp as it is written. -/
def chars (t : Timestamp) : List Char :=
  yearChars t.date.year ++ '-' :: padded 2 t.date.month ++ '-' :: padded 2 t.date.day
    ++ 'T' :: padded 2 t.hour ++ ':' :: padded 2 t.minuteOfHour ++ ':' :: padded 2 t.second
    ++ fractionChars t.subsecNanos ++ ['Z']

/-- The text of a time stamp. -/
def render (t : Timestamp) : String := String.ofList t.chars

end Timestamp

end FlowControl
