/-!
# Dates

A date is a day of the Gregorian calendar, carried back and forth without end from the days
in which the calendar was in use. Years count through zero, and a date lies within a quarter
of a million years of year zero.
-/

namespace FlowControl

/-- The earliest year of a date. -/
def earliestYear : Int := -262143

/-- The latest year of a date. -/
def latestYear : Int := 262142

/-- Whether a year has a 29th of February. -/
def isLeapYear (year : Int) : Bool :=
  decide (year % 4 = 0) && (decide (year % 100 ≠ 0) || decide (year % 400 = 0))

/-- The number of days of a month, by its number in the year. -/
def daysInMonth (year : Int) (month : Nat) : Nat :=
  if month = 2 then if isLeapYear year then 29 else 28
  else if month = 4 ∨ month = 6 ∨ month = 9 ∨ month = 11 then 30
  else 31

/-- A day of the calendar. -/
structure Date where
  year : Int
  month : Nat
  day : Nat
  year_mem : earliestYear ≤ year ∧ year ≤ latestYear
  month_mem : 1 ≤ month ∧ month ≤ 12
  day_mem : 1 ≤ day ∧ day ≤ daysInMonth year month
  deriving DecidableEq, Repr

namespace Date

/-- The first day of 1970. -/
def epoch : Date := ⟨1970, 1, 1, by decide, by decide, by decide⟩

/-- The date with a year, a month and a day, if there is such a day. -/
def ofParts? (year : Int) (month day : Nat) : Option Date :=
  if hy : earliestYear ≤ year ∧ year ≤ latestYear then
    if hm : 1 ≤ month ∧ month ≤ 12 then
      if hd : 1 ≤ day ∧ day ≤ daysInMonth year month then
        some ⟨year, month, day, hy, hm, hd⟩
      else none
    else none
  else none

/-- The day after a date: in the same month, or the first of the next month or year. -/
def next? (date : Date) : Option Date :=
  (ofParts? date.year date.month (date.day + 1)).or
    ((ofParts? date.year (date.month + 1) 1).or (ofParts? (date.year + 1) 1 1))

/-- The day before a date. -/
def previous? (date : Date) : Option Date :=
  if 1 < date.day then ofParts? date.year date.month (date.day - 1)
  else if 1 < date.month then
    ofParts? date.year (date.month - 1) (daysInMonth date.year (date.month - 1))
  else ofParts? (date.year - 1) 12 31

end Date

end FlowControl
