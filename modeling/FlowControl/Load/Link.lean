import FlowControl.Fault
import FlowControl.Flow.Event
import FlowControl.Pacing

/-!
# Links

A link leads to a simulated peer that holds back a bounded number of messages and processes
them one at a time: it waits for a tick, takes the oldest message, and acknowledges it. A
message that finds the backlog full is dropped. The peer stops when nobody listens to its
acknowledgments any more, and then refuses messages.
-/

namespace FlowControl

/-- The number of a message. -/
abbrev MessageId := UInt64

/-- What happens to a message at a link. -/
inductive Delivery where
  /-- The peer holds it. -/
  | queued
  /-- The backlog was full. -/
  | dropped
  deriving DecidableEq, Repr

/-- What a peer is doing. -/
inductive PeerStage where
  /-- It waits for a tick. -/
  | awaitingTick
  /-- It waits for a message. -/
  | awaitingMessage
  /-- It has stopped. -/
  | stopped
  deriving DecidableEq, Repr

/-- A simulated peer and the way to it. -/
structure Link where
  peer : Peer
  depth : Nat
  /-- The messages that the peer holds, the oldest first. -/
  backlog : List MessageId
  queued : UInt64
  dropped : UInt64
  stage : PeerStage
  ticker : Ticker
  /-- The acknowledgments that nobody has taken yet, the oldest first. -/
  acks : List MessageId
  /-- Whether somebody listens to the acknowledgments. -/
  heard : Bool
  deriving DecidableEq, Repr

/-- Why a message cannot be handed to a link. -/
inductive LinkFault where
  /-- The peer has stopped. -/
  | stopped (peer : Peer)
  /-- There is no way to the peer. -/
  | unreachable (peer : Peer)
  deriving DecidableEq, Repr

namespace LinkFault

/-- The message of a fault. -/
def message : LinkFault → String
  | stopped peer => "peer " ++ peer ++ " stopped processing"
  | unreachable peer => "peer " ++ peer ++ " unreachable"

/-- The fault of the library that a link fault is. -/
def toFault (fault : LinkFault) : Fault := .transport fault.message

end LinkFault

namespace Link

/-- A link to a peer that can process so many messages per second. No peer holds back more than
`2 ^ 61 - 1` messages: a link of such a depth cannot be opened, which is not modelled here, so
nothing is meant by one that starts with it. -/
def start (peer : Peer) (capacity : Float) (depth : Nat) (now : Moment) : Link where
  peer := peer
  depth := depth
  backlog := []
  queued := 0
  dropped := 0
  stage := .awaitingTick
  ticker := Ticker.start (Pacing.period capacity) now
  acks := []
  heard := true

/-- Hands a message to the peer. -/
def send (link : Link) (message : MessageId) : Except LinkFault Delivery × Link :=
  if link.stage = .stopped then (.error (.stopped link.peer), link)
  else if link.backlog.length < link.depth then
    (.ok .queued, { link with backlog := link.backlog ++ [message], queued := link.queued + 1 })
  else
    (.ok .dropped, { link with dropped := link.dropped + 1 })

/-- One step of the peer: a tick, or a message processed. It has none when it waits. -/
def step? (link : Link) (now : Moment) : Option Link :=
  match link.stage, link.backlog with
  | .awaitingTick, _ =>
    if link.ticker.isDue now then
      some { link with stage := .awaitingMessage, ticker := link.ticker.tick now }
    else none
  | .awaitingMessage, message :: rest =>
    if link.heard then
      some { link with backlog := rest, acks := link.acks ++ [message], stage := .awaitingTick }
    else some { link with backlog := [], stage := .stopped }
  | .awaitingMessage, [] => none
  | .stopped, _ => none

/-- Up to `fuel` steps of the peer. -/
def stepUpTo (now : Moment) : (fuel : Nat) → Link → Link
  | 0, link => link
  | fuel + 1, link =>
    match link.step? now with
    | some next => stepUpTo now fuel next
    | none => link

/-- Lets the peer work until it waits. Each message takes two steps at most, and one more
tick may come before the peer waits for the next message. -/
def settle (link : Link) (now : Moment) : Link :=
  stepUpTo now (2 * link.backlog.length + 1) link

/-- When the peer wakes, if it sleeps. -/
def wakes? (link : Link) : Option Moment :=
  match link.stage with
  | .awaitingTick => some link.ticker.wakes
  | .awaitingMessage => none
  | .stopped => none

/-- Lets the clock run to a moment, and the peer work whenever it wakes before that, at most
`fuel` times. -/
def runUpTo (target : Moment) : (fuel : Nat) → Link → Link
  | 0, link => link.settle target
  | fuel + 1, link =>
    match link.wakes? with
    | none => link.settle target
    | some wake =>
      if wake < target then runUpTo target fuel (link.settle wake) else link.settle target

/-- Lets the clock run to a moment. Whenever the peer wakes it processes a message, or it
waits for one from then on. -/
def runUntil (link : Link) (target : Moment) : Link :=
  link.runUpTo target (link.backlog.length + 1)

/-- Takes the acknowledgments. -/
def takeAcks (link : Link) : List MessageId × Link :=
  (link.acks, { link with acks := [] })

/-- Listens to the acknowledgments no longer. -/
def closeAcks (link : Link) : Link := { link with acks := [], heard := false }

/-- Stops the peer at once. -/
def abort (link : Link) : Link := { link with backlog := [], stage := .stopped }

/-- Whether the peer has stopped. -/
def hasStopped (link : Link) : Bool := decide (link.stage = .stopped)

end Link

end FlowControl
