import FlowControl.Dictionary
import FlowControl.Flow.Basic

/-!
# Rosters

A roster keeps the flows to the peers under one policy. The flows to a peer are numbered in
the order in which they are opened, and a number stays with its flow for ever, so who knows
the peer and the number knows that very flow. At most one flow to a peer is tracked at a time;
a flow that is no longer tracked lives on for those who know it.
-/

namespace FlowControl

/-- A flow is known by its peer and its number among the flows to that peer. -/
structure FlowId where
  peer : Peer
  number : Nat
  deriving DecidableEq, Repr

/-- The flows to one peer. -/
structure PeerFlows where
  /-- All flows ever opened; a flow's number is its place. -/
  opened : List Flow
  /-- The number of the tracked one. -/
  tracked : Option Nat

/-- The flows to the peers under one policy. -/
structure Roster where
  policy : Policy
  peers : Dictionary PeerFlows

namespace PeerFlows

/-- No flow has been opened. -/
def none : PeerFlows := ⟨[], .none⟩

/-- Changes the flow with a number. -/
def modify (flows : PeerFlows) (number : Nat) (f : Flow → Flow) : PeerFlows :=
  { flows with opened := flows.opened.modify number f }

end PeerFlows

namespace Roster

/-- A roster without flows. -/
def start (policy : Policy) : Roster := ⟨policy, .empty⟩

/-- The flows to a peer. -/
def flowsTo (roster : Roster) (peer : Peer) : PeerFlows :=
  (roster.peers.get? peer).getD .none

/-- Changes the flows to a peer. -/
def mapPeer (roster : Roster) (peer : Peer) (f : PeerFlows → PeerFlows) : Roster :=
  { roster with peers := roster.peers.insert peer (f (roster.flowsTo peer)) }

/-- The flow to a peer that is opened next. -/
def nextId (roster : Roster) (peer : Peer) : FlowId :=
  ⟨peer, (roster.flowsTo peer).opened.length⟩

/-- Opens a flow to a peer without tracking it. -/
def openFlow (roster : Roster) (peer : Peer) : Roster :=
  roster.mapPeer peer fun flows =>
    { flows with opened := flows.opened ++ [roster.policy.newFlow peer] }

/-- The flow that is known by an id. -/
def flow? (roster : Roster) (id : FlowId) : Option Flow :=
  (roster.flowsTo id.peer).opened[id.number]?

/-- The tracked flow to a peer. -/
def find? (roster : Roster) (peer : Peer) : Option FlowId :=
  (roster.flowsTo peer).tracked.map fun number => ⟨peer, number⟩

/-- Tracks a peer: opens a flow to it unless one is tracked. -/
def track (roster : Roster) (peer : Peer) : Roster × List Event :=
  match roster.find? peer with
  | some _ => (roster, [])
  | none =>
    let opened := roster.openFlow peer
    let number := (roster.nextId peer).number
    (opened.mapPeer peer fun flows => { flows with tracked := some number }, [.tracking peer])

/-- Tracks a peer no longer. Its flows stay for those who know them. -/
def untrack (roster : Roster) (peer : Peer) : Roster :=
  roster.mapPeer peer fun flows => { flows with tracked := none }

/-- Changes a flow. -/
def modify (roster : Roster) (id : FlowId) (f : Flow → Flow) : Roster :=
  roster.mapPeer id.peer fun flows => flows.modify id.number f

/-- Judges a flow. -/
def judge (roster : Roster) (now : UInt64) (id : FlowId) : Roster × List Event :=
  match roster.flow? id with
  | none => (roster, [])
  | some flow =>
    let (judged, events) := roster.policy.judge now flow
    (roster.modify id fun _ => judged, events)

/-- Judges flows one after the other. -/
def judgeEach (roster : Roster) (now : UInt64) : List FlowId → Roster × List Event
  | [] => (roster, [])
  | id :: ids =>
    let (first, events) := roster.judge now id
    let (last, more) := first.judgeEach now ids
    (last, events ++ more)

/-- The tracked flows, in the order of their peers. -/
def trackedIds (roster : Roster) : List FlowId :=
  roster.peers.entries.filterMap fun (peer, flows) =>
    flows.tracked.map fun number => ⟨peer, number⟩

/-- The number of tracked peers. -/
def size (roster : Roster) : Nat := roster.trackedIds.length

/-- Judges every tracked flow, in the order of the peers. -/
def judgeAll (roster : Roster) (now : UInt64) : Roster × List Event :=
  roster.judgeEach now roster.trackedIds

/-- What is tracked, in the order of the peers. -/
def trackedFlows (roster : Roster) : List Flow :=
  roster.trackedIds.filterMap roster.flow?

/-- The tracked peers that are overloaded, in order. -/
def overloadedPeers (roster : Roster) : List Peer :=
  (roster.trackedFlows.filter (·.overloaded)).map (·.peer)

/-- The views of the tracked flows at a moment of the wall clock, in the order of the peers. -/
def snapshots (roster : Roster) (observedAt : Timestamp) : List Snapshot :=
  roster.trackedFlows.map (·.snapshot observedAt)

end Roster

end FlowControl
