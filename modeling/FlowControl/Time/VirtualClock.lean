import FlowControl.Time.Span

/-!
# The virtual clock

A clock that counts nanoseconds from zero and stands still while there is anything to do.
When everybody sleeps it moves on to the next moment at which somebody wakes. Timers fire on
whole milliseconds only.
-/

namespace FlowControl

/-- A moment on the virtual clock, in nanoseconds since its start. -/
abbrev Moment := Nat

namespace Moment

/-- The first whole millisecond that is not before a moment: when a timer set for the moment
fires. -/
def fires (moment : Moment) : Moment :=
  (moment + (nanosPerMilli - 1)) / nanosPerMilli * nanosPerMilli

/-- Where the clock stands after everybody slept from `now` until `moment`. It moves by whole
milliseconds, as many as there are from the one that has begun to the one the timer fires
at. -/
def sleepUntil (now moment : Moment) : Moment :=
  now + (fires moment - now / nanosPerMilli * nanosPerMilli)

/-- The longest that anybody sleeps, in nanoseconds: thirty years of 365 days. -/
def longestSleep : Nat := 30 * 365 * 86400 * nanosPerSecond

/-- The moment for which a sleep of so many nanoseconds sets its timer. -/
def sleepEnd (now : Moment) (nanos : Nat) : Moment := now + min nanos longestSleep

/-- Where the clock stands after everybody slept so many nanoseconds. -/
def sleep (now : Moment) (nanos : Nat) : Moment := sleepUntil now (sleepEnd now nanos)

end Moment

/-- A stopwatch that shows the milliseconds since its start. -/
structure Stopwatch where
  startedAt : Moment

namespace Stopwatch

/-- The whole milliseconds since the start. -/
def millis (watch : Stopwatch) (now : Moment) : UInt64 :=
  saturate ((now - watch.startedAt) / nanosPerMilli)

end Stopwatch

/-- A timer that fires again and again. A tick that comes late by more than the slack puts
off all that follow; one that is less late does not. -/
structure Ticker where
  /-- The time from one tick to the next, in nanoseconds. -/
  period : Nat
  /-- When the next tick is due. -/
  deadline : Moment
  deriving DecidableEq, Repr

namespace Ticker

/-- How late a tick may come without putting off the next ones. -/
def slack : Nat := 5 * nanosPerMilli

/-- A ticker whose first tick is due at once. -/
def start (period : Span) (now : Moment) : Ticker := ⟨period.nanos, now⟩

/-- When the next tick fires. -/
def wakes (ticker : Ticker) : Moment := Moment.fires ticker.deadline

/-- Whether the next tick can fire. -/
def isDue (ticker : Ticker) (now : Moment) : Bool := decide (ticker.wakes ≤ now)

/-- The ticker after a tick. -/
def tick (ticker : Ticker) (now : Moment) : Ticker :=
  if ticker.deadline + slack < now then { ticker with deadline := now + ticker.period }
  else { ticker with deadline := ticker.deadline + ticker.period }

end Ticker

end FlowControl
