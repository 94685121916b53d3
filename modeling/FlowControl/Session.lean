import FlowControl.Roster
import FlowControl.Time.ManualClock

/-!
# Sessions

A session is a roster with the manual clock that its flows are judged by. What happens to it
is a list of actions, and what it tells is a list of events.
-/

namespace FlowControl

/-- A roster and its clock. -/
structure Session where
  clock : ManualClock
  roster : Roster

namespace Session

/-- What can happen in a session. -/
inductive Action where
  /-- The clock moves. -/
  | move (move : ManualClock.Move)
  /-- A flow to a peer is opened without tracking it. -/
  | openFlow (peer : Peer)
  /-- A peer is tracked. -/
  | track (peer : Peer)
  /-- A peer is tracked no longer. -/
  | untrack (peer : Peer)
  /-- Traffic of a flow is counted. -/
  | record (flow : FlowId) (direction : Direction) (events : UInt64)
  /-- A meter of a flow is closed without judging the flow. -/
  | resetMeter (flow : FlowId) (direction : Direction)
  /-- A flow is judged. -/
  | judge (flow : FlowId)
  /-- Flows are judged one after the other. -/
  | judgeEach (flows : List FlowId)
  /-- Every tracked flow is judged. -/
  | judgeAll
  deriving DecidableEq, Repr

/-- A session without flows. -/
def start (policy : Policy) (millis : UInt64) : Session := ⟨⟨millis⟩, .start policy⟩

/-- Replaces the roster and keeps what it told. -/
def withRoster (session : Session) (outcome : Roster × List Event) : Session × List Event :=
  ({ session with roster := outcome.1 }, outcome.2)

/-- The session after one action, and what it told. -/
def act (session : Session) : Action → Session × List Event
  | .move move => ({ session with clock := session.clock.move move }, [])
  | .openFlow peer => session.withRoster (session.roster.openFlow peer, [])
  | .track peer => session.withRoster (session.roster.track peer)
  | .untrack peer => session.withRoster (session.roster.untrack peer, [])
  | .record flow direction events =>
    session.withRoster (session.roster.modify flow (·.record direction events), [])
  | .resetMeter flow direction =>
    session.withRoster (session.roster.modify flow (·.mapMeter direction Meter.reset), [])
  | .judge flow => session.withRoster (session.roster.judge session.clock.now flow)
  | .judgeEach flows => session.withRoster (session.roster.judgeEach session.clock.now flows)
  | .judgeAll => session.withRoster (session.roster.judgeAll session.clock.now)

/-- The session after a list of actions, and all that it told. -/
def run (session : Session) : List Action → Session × List Event
  | [] => (session, [])
  | action :: actions =>
    let (next, events) := session.act action
    let (last, more) := next.run actions
    (last, events ++ more)

end Session

end FlowControl
