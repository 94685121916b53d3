import FlowControl.Time.Span

/-!
# Meters

A meter counts events over a window and, when the window closes, tells how many there were
per second. Events recorded before a close belong to the closed window and later ones to the
next.
-/

namespace FlowControl

/-- A count of events in the window that is open. -/
structure Meter where
  window : Span
  count : UInt64
  deriving DecidableEq, Repr

namespace Meter

/-- A meter that has counted nothing. -/
def start (window : Span) : Meter := ⟨window, 0⟩

/-- Counts more events. The count wraps around. -/
def record (meter : Meter) (events : UInt64) : Meter :=
  { meter with count := meter.count + events }

/-- Events per second of a window with the given count. An empty window has none. -/
def perSecond (window : Span) (count : UInt64) : Float :=
  if 0 < window.seconds then count.toFloat / window.seconds else 0

/-- The rate of the open window. -/
def rate (meter : Meter) : Float := perSecond meter.window meter.count

/-- The meter after its window is closed. -/
def reset (meter : Meter) : Meter := { meter with count := 0 }

end Meter

end FlowControl
