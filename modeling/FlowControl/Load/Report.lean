import FlowControl.Flow.Event
import FlowControl.Settings

/-!
# Reports

What a trial of a load shows: a sample of each peer whenever a window closes, and a summary
of each peer at the end.
-/

namespace FlowControl

/-- A peer right after one of its windows was closed. -/
structure Sample where
  elapsedMs : UInt64
  peer : Peer
  /-- The permitted rate, absent while nothing limits the flow. -/
  rate : Option Float
  overloaded : Bool

/-- A peer at the end of a trial. -/
structure Summary where
  peer : Peer
  capacity : Float
  queued : UInt64
  dropped : UInt64
  acknowledged : UInt64
  /-- The permitted rate at the end, absent if nothing limits the flow. -/
  finalRate : Option Float
  /-- In how many samples the peer was overloaded. -/
  overloadedWindows : UInt64

/-- What a trial shows. -/
structure Report where
  policy : PolicySettings
  samples : List Sample
  peers : List Summary

namespace Report

/-- The summary of a peer. -/
def peer? (report : Report) (peer : Peer) : Option Summary :=
  report.peers.find? fun summary => summary.peer = peer

end Report

end FlowControl
