import FlowControl.Time.VirtualClock

/-!
# Pacing

A pacer spaces sends evenly. A reservation is granted the next free slot and occupies it for
its interval, so the following one is granted no earlier than that. Idle time is not saved
up: a slot that has passed is free at once.
-/

namespace FlowControl

namespace Pacing

/-- The longest interval that one reservation occupies. -/
def longest : Span := Span.ofSecs 60

/-- The interval that a number of sends occupies at a rate per second, which is none if the seconds
it takes are those of no span. A rate that permits nothing occupies the longest one. -/
def interval? (rate : Float) (permits : UInt32) : Option Span :=
  if rate.isNaN ∨ rate ≤ 0 then some longest
  else
    let seconds := permits.toFloat / rate
    if longest.seconds ≤ seconds then some longest else Span.ofSeconds? seconds

/-- The interval that a number of sends occupies, which would be the longest one if the seconds
were those of no span. -/
def interval (rate : Float) (permits : UInt32) : Span := (interval? rate permits).getD longest

/-- The longest period of a load, which is also the period of no load. -/
def hour : Span := Span.ofSecs 3600

/-- The shortest period of a load, a microsecond. -/
def shortest : Nat := 1000

/-- The seconds that are turned into the period of a load, an hour at most. -/
def periodSeconds (rate : Float) : Float := if 1 / rate < 3600 then 1 / rate else 3600

/-- The period of a load of so many events per second, which is none if its seconds are those of no
span. -/
def period? (rate : Float) : Option Span :=
  if rate.isNaN ∨ rate ≤ 0 then some hour
  else (Span.ofSeconds? (periodSeconds rate)).map fun span => span.max ⟨shortest, by decide⟩

/-- The period of a load of so many events per second: at most an hour, which it would also be if
its seconds were those of no span, and at least the shortest one. -/
def period (rate : Float) : Span := (period? rate).getD hour

end Pacing

/-- Slots on a time line that starts at the anchor. -/
structure Pacer where
  anchor : Moment
  /-- When the next slot opens, in nanoseconds since the anchor. -/
  nextFree : UInt64
  deriving DecidableEq, Repr

namespace Pacer

/-- A pacer whose first slot is open. -/
def start (now : Moment) : Pacer := ⟨now, 0⟩

/-- Nanoseconds since the anchor. -/
def elapsed (pacer : Pacer) (now : Moment) : UInt64 := saturate (now - pacer.anchor)

/-- Reserves a number of sends at a rate: how long to wait, in nanoseconds, and the pacer
after that. Without a limit nobody waits and no slot is taken. -/
def reserve (pacer : Pacer) (now : Moment) (rate : Float) (permits : UInt32) : UInt64 × Pacer :=
  if rate.isInf ∧ 0 < rate then (0, pacer)
  else
    let elapsed := pacer.elapsed now
    let slot := max pacer.nextFree elapsed
    let next := saturate (slot.toNat + (Pacing.interval rate permits).nanosWord.toNat)
    (slot - elapsed, { pacer with nextFree := next })

/-- Reserves and sleeps until the slot opens: where the clock stands then, and the pacer. -/
def acquire (pacer : Pacer) (now : Moment) (rate : Float) (permits : UInt32) : Moment × Pacer :=
  let (wait, next) := pacer.reserve now rate permits
  (if wait = 0 then now else Moment.sleep now wait.toNat, next)

end Pacer

end FlowControl
