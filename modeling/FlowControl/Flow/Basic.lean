import FlowControl.Flow.Event
import FlowControl.Flow.Meter
import FlowControl.Policy.Basic
import FlowControl.Time.Timestamp

/-!
# Flows

The traffic to one peer: what was sent and acknowledged in the open window, the permitted
rate, and whether the peer is overloaded. A policy judges a flow when its window is over and
leaves it alone before that.
-/

namespace FlowControl

/-- The direction of traffic. -/
inductive Direction where
  /-- Acknowledgments from the peer. -/
  | incoming
  /-- Messages to the peer. -/
  | outgoing
  deriving DecidableEq, Repr

/-- The traffic to one peer and what is permitted of it. -/
structure Flow where
  peer : Peer
  incoming : Meter
  outgoing : Meter
  allowance : Allowance
  overloaded : Bool
  /-- The clock reading at which the last window was closed, zero if none was. -/
  lastDecision : UInt64
  windowsClosed : UInt64

/-- A view of a flow at one moment. -/
structure Snapshot where
  peer : Peer
  /-- The permitted rate, absent while nothing limits the flow. -/
  rate : Option Float
  overloaded : Bool
  lastDecision : UInt64
  windowsClosed : UInt64
  pendingIncoming : UInt64
  pendingOutgoing : UInt64
  /-- When the view was taken. -/
  observedAt : Timestamp

namespace Flow

/-- A flow without traffic, without a limit and not overloaded. -/
def start (peer : Peer) (window : Span) : Flow where
  peer := peer
  incoming := Meter.start window
  outgoing := Meter.start window
  allowance := .unlimited
  overloaded := false
  lastDecision := 0
  windowsClosed := 0

/-- The meter of a direction. -/
def meter (flow : Flow) : Direction → Meter
  | .incoming => flow.incoming
  | .outgoing => flow.outgoing

/-- Changes the meter of a direction. -/
def mapMeter (flow : Flow) (direction : Direction) (f : Meter → Meter) : Flow :=
  match direction with
  | .incoming => { flow with incoming := f flow.incoming }
  | .outgoing => { flow with outgoing := f flow.outgoing }

/-- Counts messages or acknowledgments. -/
def record (flow : Flow) (direction : Direction) (events : UInt64) : Flow :=
  flow.mapMeter direction (·.record events)

/-- The permitted rate, in messages per second. -/
def rate (flow : Flow) : Float := flow.allowance.rate

/-- The permitted rate, if anything limits the flow. -/
def limit? (flow : Flow) : Option Float := if flow.rate.isFinite then some flow.rate else none

/-- The view of a flow, taken at a moment of the wall clock. -/
def snapshot (flow : Flow) (observedAt : Timestamp) : Snapshot where
  peer := flow.peer
  rate := flow.limit?
  overloaded := flow.overloaded
  lastDecision := flow.lastDecision
  windowsClosed := flow.windowsClosed
  pendingIncoming := flow.incoming.count
  pendingOutgoing := flow.outgoing.count
  observedAt := observedAt

/-- Whether a full window has passed since the last decision. A clock that stands before the
last decision has not moved on at all. -/
def isDue (flow : Flow) (window : Span) (now : UInt64) : Bool :=
  decide (window.millis.toNat ≤ now.toNat - flow.lastDecision.toNat)

/-- A flow after its window is closed with a verdict. A rate equal to the limit leaves the
limit as it is. -/
def close (flow : Flow) (now : UInt64) (verdict : Verdict) : Flow where
  peer := flow.peer
  incoming := flow.incoming.reset
  outgoing := flow.outgoing.reset
  allowance := if verdict.rate == flow.rate then flow.allowance else .ofRate verdict.rate
  overloaded := verdict.overloaded
  lastDecision := now
  windowsClosed := flow.windowsClosed + 1

/-- The event of a change between overloaded and not overloaded, if there is one. -/
def transition (peer : Peer) (before : Bool) (verdict : Verdict) : List Event :=
  match before, verdict.overloaded with
  | false, true => [.overloaded peer verdict.ratio verdict.rate]
  | true, false => [.recovered peer verdict.rate]
  | _, _ => []

end Flow

namespace Policy

/-- A new flow to a peer. -/
def newFlow (policy : Policy) (peer : Peer) : Flow := Flow.start peer policy.window

/-- The verdict on the open window of a flow. -/
def verdict (policy : Policy) (flow : Flow) : Verdict :=
  policy.tuning.verdict flow.rate flow.incoming.rate flow.outgoing.rate

/-- Judges a flow whose window is over: closes the window, sets the limit and the overload
flag, and tells so. A flow whose window is still open stays as it is. -/
def judge (policy : Policy) (now : UInt64) (flow : Flow) : Flow × List Event :=
  if flow.isDue policy.window now then
    let verdict := policy.verdict flow
    (flow.close now verdict,
      .windowClosed flow.peer flow.rate verdict
        :: Flow.transition flow.peer flow.overloaded verdict)
  else
    (flow, [])

end Policy

end FlowControl
