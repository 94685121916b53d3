import FlowControl.Load.Link
import FlowControl.Load.Profile
import FlowControl.Load.Report
import FlowControl.Roster

/-!
# Trials of a load

A trial runs a policy under a load on the virtual clock. Each peer has a lane: a sender that
offers messages at a fixed rate and paces them by the permitted rate of the peer's flow, the
link to the peer, and a listener that counts its acknowledgments. A supervisor judges all
flows four times per window and takes a sample of each peer whose window was closed.

Everything that happens is a move, and a move that is not possible has no outcome, so the
trials that any order of the moves can reach are those that some list of moves leads to. The
trial that is reported takes the first possible move in a fixed order.
-/

namespace FlowControl

/-- What a sender is doing. -/
inductive SenderStage where
  /-- It waits until the next message is offered. -/
  | awaitingOffer
  /-- It holds a message and waits for its slot. -/
  | awaitingSlot (opens : Moment)
  /-- It has stopped. -/
  | stopped
  deriving DecidableEq, Repr

/-- All that belongs to one peer of a trial. -/
structure Lane where
  capacity : Float
  flow : FlowId
  link : Link
  pacer : Pacer
  offers : Ticker
  stage : SenderStage
  nextMessage : MessageId
  acknowledged : UInt64

/-- A trial at one moment. -/
structure Trial where
  settings : PolicySettings
  deadline : Moment
  now : Moment
  /-- The clock by which the flows are judged. -/
  watch : Stopwatch
  roster : Roster
  lanes : List Lane
  /-- The ticks of the supervisor. -/
  checks : Ticker
  /-- How many windows of each peer have been sampled. -/
  sampled : Dictionary UInt64
  /-- The samples that were taken together, the latest first. -/
  blocks : List (List Sample)
  finished : Bool

namespace Lane

/-- A lane to a new peer. -/
def start (peer : Peer) (capacity : Float) (flow : FlowId) (load : LoadSettings)
    (now : Moment) : Lane where
  capacity := capacity
  flow := flow
  link := Link.start peer capacity load.queueDepth.toNat now
  pacer := Pacer.start now
  offers := Ticker.start (Pacing.period load.offeredRate) now
  stage := .awaitingOffer
  nextMessage := 0
  acknowledged := 0

/-- When the sender wakes, if it sleeps. -/
def senderWakes (lane : Lane) : List Moment :=
  match lane.stage with
  | .awaitingOffer => [lane.offers.wakes]
  | .awaitingSlot opens => [opens]
  | .stopped => []

/-- The sender takes the next message on offer and reserves a slot for it. -/
def offer? (lane : Lane) (now : Moment) (rate : Float) : Option Lane :=
  if lane.stage = .awaitingOffer ∧ lane.offers.isDue now then
    let (wait, pacer) := lane.pacer.reserve now rate 1
    let opens := if wait = 0 then now else Moment.fires (Moment.sleepEnd now wait.toNat)
    some { lane with
      offers := lane.offers.tick now
      pacer := pacer
      stage := .awaitingSlot opens }
  else none

/-- The sender whose slot is open sends its message, and stops if the peer has. -/
def dispatch? (lane : Lane) (now : Moment) : Option (Except LinkFault Delivery × Lane) :=
  match lane.stage with
  | .awaitingSlot opens =>
    if opens ≤ now then
      let (outcome, link) := lane.link.send lane.nextMessage
      match outcome with
      | .ok delivery =>
        some (.ok delivery,
          { lane with link := link, stage := .awaitingOffer, nextMessage := lane.nextMessage + 1 })
      | .error fault => some (.error fault, { lane with link := link, stage := .stopped })
    else none
  | _ => none

/-- The peer works on. -/
def process? (lane : Lane) (now : Moment) : Option Lane :=
  (lane.link.step? now).map fun link => { lane with link := link }

/-- The listener takes an acknowledgment. -/
def hear? (lane : Lane) : Option Lane :=
  match lane.link.acks with
  | [] => none
  | _ :: rest =>
    some { lane with
      link := { lane.link with acks := rest }
      acknowledged := lane.acknowledged + 1 }

end Lane

namespace Trial

/-- What can happen in a trial. Lanes are numbered from zero. -/
inductive Move where
  /-- The sender of a lane takes the next message. -/
  | offer (lane : Nat)
  /-- The sender of a lane sends. -/
  | dispatch (lane : Nat)
  /-- The peer of a lane works. -/
  | process (lane : Nat)
  /-- The listener of a lane takes an acknowledgment. -/
  | hear (lane : Nat)
  /-- The supervisor judges all flows. -/
  | check
  /-- Everybody sleeps and the clock moves on. -/
  | rest
  deriving DecidableEq, Repr

/-- The name of the peer with a number. -/
def peerName (index : Nat) : Peer := "peer-" ++ index.repr

/-- The period of the supervisor: a quarter of the window, at least a millisecond. -/
def checkPeriod (window : Span) : Span := (window.div 4).max (.ofMillis 1)

/-- Opens the lanes of the capacities, the first one with number `index`. Peers have
different names, so each one that is tracked gets a new flow. -/
def openLanes (load : LoadSettings) : (index : Nat) → List Float → Roster → List Lane × Roster
  | _, [], roster => ([], roster)
  | index, capacity :: capacities, roster =>
    let peer := peerName index
    let lane := Lane.start peer capacity (roster.nextId peer) load 0
    let (lanes, last) := openLanes load (index + 1) capacities (roster.track peer).1
    (lane :: lanes, last)

/-- A trial at its start. Two aborts are not modelled: a trial cannot be set up with a queue depth
above `2 ^ 61 - 1`, for no link is that deep, nor with a duration that ends beyond what a clock of
`2 ^ 63 - 1` seconds can show. Nothing is meant by a trial of such a load. -/
def start (settings : PolicySettings) (load : LoadSettings) (policy : Policy) : Trial :=
  let (lanes, roster) := openLanes load 0 load.capacities (.start policy)
  { settings := settings
    deadline := load.duration.nanos
    now := 0
    watch := ⟨0⟩
    roster := roster
    lanes := lanes
    checks := Ticker.start (checkPeriod policy.window) 0
    sampled := .empty
    blocks := []
    finished := decide (load.duration.nanos = 0) }

/-- How many windows of a peer have been sampled. -/
def sampledOf (sampled : Dictionary UInt64) (peer : Peer) : UInt64 :=
  (sampled.get? peer).getD 0

/-- The samples of the flows with a newly closed window, and how many windows are sampled
then. -/
def sampleAll (elapsedMs : UInt64) :
    List Flow → Dictionary UInt64 → List Sample × Dictionary UInt64
  | [], sampled => ([], sampled)
  | flow :: flows, sampled =>
    if flow.windowsClosed ≤ sampledOf sampled flow.peer then sampleAll elapsedMs flows sampled
    else
      let (samples, last) :=
        sampleAll elapsedMs flows (sampled.insert flow.peer flow.windowsClosed)
      (⟨elapsedMs, flow.peer, flow.limit?, flow.overloaded⟩ :: samples, last)

/-- The trial with one of its lanes replaced. -/
def withLane (trial : Trial) (index : Nat) (lane : Lane) : Trial :=
  { trial with lanes := trial.lanes.set index lane }

/-- The permitted rate of a flow. -/
def rateOf (trial : Trial) (id : FlowId) : Float :=
  match trial.roster.flow? id with
  | some flow => flow.rate
  | none => unbounded

/-- The sender of a lane takes the next message. -/
def offer? (trial : Trial) (index : Nat) : Option Trial := do
  let lane ← trial.lanes[index]?
  let next ← lane.offer? trial.now (trial.rateOf lane.flow)
  some (trial.withLane index next)

/-- The sender of a lane sends. A message counts as sent whether it is held or dropped. -/
def dispatch? (trial : Trial) (index : Nat) : Option Trial := do
  let lane ← trial.lanes[index]?
  let (outcome, next) ← lane.dispatch? trial.now
  match outcome with
  | .ok _ =>
    some { trial.withLane index next with
      roster := trial.roster.modify lane.flow (·.record .outgoing 1) }
  | .error _ => some (trial.withLane index next)

/-- The peer of a lane works. -/
def process? (trial : Trial) (index : Nat) : Option Trial := do
  let lane ← trial.lanes[index]?
  let next ← lane.process? trial.now
  some (trial.withLane index next)

/-- The listener of a lane takes an acknowledgment. -/
def hear? (trial : Trial) (index : Nat) : Option Trial := do
  let lane ← trial.lanes[index]?
  let next ← lane.hear?
  some { trial.withLane index next with
    roster := trial.roster.modify lane.flow (·.record .incoming 1) }

/-- The supervisor judges all flows and samples those whose window was closed. The trial is
over when that happens at the deadline or later. -/
def check? (trial : Trial) : Option Trial :=
  if trial.checks.isDue trial.now then
    let roster := (trial.roster.judgeAll (trial.watch.millis trial.now)).1
    let elapsedMs := saturate (trial.now / nanosPerMilli)
    let (samples, sampled) := sampleAll elapsedMs roster.trackedFlows trial.sampled
    some { trial with
      roster := roster
      checks := trial.checks.tick trial.now
      sampled := sampled
      blocks := if samples.isEmpty then trial.blocks else samples :: trial.blocks
      finished := decide (trial.deadline ≤ trial.now) }
  else none

/-- The possible moves of one lane, in the order in which they are tried. -/
def laneMoves (index : Nat) : List Move :=
  [.dispatch index, .offer index, .process index, .hear index]

/-- All moves but rest, in the order in which they are tried. -/
def busyMoves (trial : Trial) : List Move :=
  (List.range trial.lanes.length).flatMap laneMoves ++ [.check]

/-- The outcome of a move other than rest, if the move is possible. -/
def actBusy? (trial : Trial) : Move → Option Trial
  | .offer index => trial.offer? index
  | .dispatch index => trial.dispatch? index
  | .process index => trial.process? index
  | .hear index => trial.hear? index
  | .check => trial.check?
  | .rest => none

/-- The next moment at which somebody wakes. -/
def nextWake (trial : Trial) : Moment :=
  (trial.lanes.flatMap fun lane => lane.senderWakes ++ lane.link.wakes?.toList).foldl
    min trial.checks.wakes

/-- The clock moves on when nothing else is possible. -/
def rest? (trial : Trial) : Option Trial :=
  if trial.busyMoves.any fun move => (trial.actBusy? move).isSome then none
  else some { trial with now := trial.nextWake }

/-- The outcome of a move, if the move is possible. Nothing is possible in a trial that is
over. -/
def act? (trial : Trial) (move : Move) : Option Trial :=
  if trial.finished then none
  else
    match move with
    | .rest => trial.rest?
    | _ => trial.actBusy? move

/-- The trial after its first possible move. -/
def step? (trial : Trial) : Option Trial :=
  (trial.busyMoves ++ [Move.rest]).findSome? trial.act?

/-- The trial after at most `fuel` moves, each the first possible one. -/
def runUpTo : (fuel : Nat) → Trial → Trial
  | 0, trial => trial
  | fuel + 1, trial =>
    match trial.step? with
    | some next => runUpTo fuel next
    | none => trial

/-- More moves than a trial can make. The clock rests at most once in a millisecond, and no
later than at the check after the deadline. In between timers catch up with at most five
milliseconds of ticks, each at least a microsecond apart, and a tick is followed by at most
four moves. -/
def moveLimit (trial : Trial) : Nat :=
  ((trial.deadline + trial.checks.period) / nanosPerMilli + 3) * (trial.lanes.length * 65536 + 16)

/-- The trial when it is over. -/
def complete (trial : Trial) : Trial := runUpTo trial.moveLimit trial

/-- All samples, in the order in which they were taken. -/
def samples (trial : Trial) : List Sample := trial.blocks.reverse.flatten

/-- The summary of a lane. -/
def summary (trial : Trial) (lane : Lane) : Summary where
  peer := lane.link.peer
  capacity := lane.capacity
  queued := lane.link.queued
  dropped := lane.link.dropped
  acknowledged := lane.acknowledged
  finalRate :=
    let id := trial.roster.find? lane.link.peer
    (id.bind trial.roster.flow?).bind (·.limit?)
  overloadedWindows :=
    (trial.samples.countP fun s => decide (s.peer = lane.link.peer) && s.overloaded).toUInt64

/-- What a trial shows. -/
def report (trial : Trial) : Report where
  policy := trial.settings
  samples := trial.samples
  peers := trial.lanes.map trial.summary

end Trial

namespace Settings

/-- Tries a load under a policy. A bad load is reported before a bad policy. The check of the load
sets no upper bound to the queue depth and the duration. Where the depth is above `2 ^ 61 - 1`, or
the end of the trial beyond what a clock of `2 ^ 63 - 1` seconds can show, the trial is aborted
before it starts: there is neither a report nor a fault, and the report that stands here is that of
no trial. -/
def tryLoad (settings : Settings) : Except Fault Report := do
  settings.load.check.mapError LoadFault.toFault
  let policy ← settings.policy.policy.mapError Fault.policy
  return (Trial.start settings.policy settings.load policy).complete.report

end Settings

end FlowControl
