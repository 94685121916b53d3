import FlowControl.Time.Span

/-!
# The manual clock

A clock that shows milliseconds and moves only when it is told to. All holders of the clock
share its one reading.
-/

namespace FlowControl

/-- A clock that is moved by hand. -/
structure ManualClock where
  now : UInt64
  deriving DecidableEq, Repr

namespace ManualClock

/-- One move of the clock. -/
inductive Move where
  /-- Time passes. -/
  | advance (span : Span)
  /-- A holder sleeps, which on this clock makes the time pass at once. -/
  | sleep (span : Span)
  /-- The clock is set. -/
  | set (millis : UInt64)
  deriving DecidableEq, Repr

/-- Moves the clock by the whole milliseconds of a span, at most the largest word of them.
The reading itself wraps around. -/
def advance (clock : ManualClock) (span : Span) : ManualClock :=
  ⟨clock.now + span.millis⟩

/-- The clock after one move. -/
def move (clock : ManualClock) : Move → ManualClock
  | .advance span => clock.advance span
  | .sleep span => clock.advance span
  | .set millis => ⟨millis⟩

end ManualClock

end FlowControl
