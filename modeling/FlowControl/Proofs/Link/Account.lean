import FlowControl.Load.Link
import Mathlib.Data.Nat.Notation
import Mathlib.Tactic.SplitIfs

/-!
# The account of a link

What can happen to a link: messages are sent, the peer works, time passes, acknowledgments are
taken, and the peer is stopped from outside. In any order of these, an account tells what became of
every message and when it was acknowledged. What a step does is described once, and all that is
proved of links rests on this description.
-/

namespace FlowControl

/-- What can happen to a link whose acknowledgments somebody listens to. -/
inductive LinkStep where
  /-- A message is handed to it. -/
  | send (message : MessageId)
  /-- The peer does what it can do next, if it can do anything. -/
  | work
  /-- So many nanoseconds pass. -/
  | pass (nanos : Nat)
  /-- The acknowledgments are taken. -/
  | take
  /-- The peer is stopped. -/
  | abort
  deriving DecidableEq

/-- Whether a message is handed to the link. -/
def LinkStep.isSend : LinkStep → Bool
  | send _ => true
  | work | pass _ | take | abort => false

/-- An acknowledgment, with the tick that the peer took before it waited for the message. -/
structure Acknowledgment where
  message : MessageId
  /-- When the tick was due. -/
  due : Moment
  /-- When the tick was taken. -/
  tick : Moment
  /-- When the message was acknowledged. -/
  time : Moment
  deriving DecidableEq

/-- A link at a moment, and what happened to it until then. -/
structure Account where
  link : Link
  now : Moment
  /-- When the last tick was due. -/
  due : Moment
  /-- When the last tick was taken. -/
  tick : Moment
  /-- The messages that the peer held, in the order in which they were sent. -/
  queued : List MessageId
  /-- The messages for which there was no room. -/
  dropped : List MessageId
  /-- The messages that came after the peer had stopped. -/
  refused : List MessageId
  /-- The acknowledgments that the peer sent, in their order. -/
  acknowledged : List Acknowledgment
  /-- The acknowledgments that were taken, in their order. -/
  taken : List MessageId

namespace Account

/-- A new link, to which nothing has happened. -/
def start (peer : Peer) (capacity : Float) (depth : Nat) (now : Moment) : Account where
  link := Link.start peer capacity depth now
  now := now
  due := now
  tick := now
  queued := []
  dropped := []
  refused := []
  acknowledged := []
  taken := []

/-- Enters a message that was handed to the link. -/
def enter (account : Account) (message : MessageId) : Except LinkFault Delivery → Account
  | .ok .queued => { account with queued := account.queued ++ [message] }
  | .ok .dropped => { account with dropped := account.dropped ++ [message] }
  | .error _ => { account with refused := account.refused ++ [message] }

/-- Enters the tick that the peer took, or the acknowledgments that it sent. -/
def proceed (account : Account) (next : Link) : Account :=
  let sent := next.acks.drop account.link.acks.length
  { account with
    link := next
    due := if account.link.stage = .awaitingTick then account.link.ticker.deadline else account.due
    tick := if account.link.stage = .awaitingTick then account.now else account.tick
    acknowledged := account.acknowledged ++
      sent.map fun message => ⟨message, account.due, account.tick, account.now⟩ }

/-- The account after a step. -/
def step (account : Account) : LinkStep → Account
  | .send message =>
    let (outcome, link) := account.link.send message
    { account.enter message outcome with link := link }
  | .work => ((account.link.step? account.now).map account.proceed).getD account
  | .pass nanos => { account with now := account.now + nanos }
  | .take =>
    let (acks, link) := account.link.takeAcks
    { account with link := link, taken := account.taken ++ acks }
  | .abort => { account with link := account.link.abort }

/-- The account after some steps. -/
def run (account : Account) (steps : List LinkStep) : Account := steps.foldl step account

/-- What a step does to a link that somebody listens to. -/
inductive Acts (account : Account) : LinkStep → Account → Prop
  /-- The peer has room for a message. -/
  | queue (message : MessageId) (hstage : account.link.stage ≠ .stopped)
    (hroom : account.link.backlog.length < account.link.depth) :
    Acts account (.send message)
      { account with
        link := { account.link with
          backlog := account.link.backlog ++ [message]
          queued := account.link.queued + 1 }
        queued := account.queued ++ [message] }
  /-- The peer has no room for a message. -/
  | drop (message : MessageId) (hstage : account.link.stage ≠ .stopped)
    (hfull : account.link.depth ≤ account.link.backlog.length) :
    Acts account (.send message)
      { account with
        link := { account.link with dropped := account.link.dropped + 1 }
        dropped := account.dropped ++ [message] }
  /-- The peer has stopped. -/
  | refuse (message : MessageId) (hstage : account.link.stage = .stopped) :
    Acts account (.send message) { account with refused := account.refused ++ [message] }
  /-- The peer takes a tick. -/
  | tick (hstage : account.link.stage = .awaitingTick)
    (hdue : account.link.ticker.wakes ≤ account.now) :
    Acts account .work
      { account with
        link := { account.link with
          stage := .awaitingMessage
          ticker := account.link.ticker.tick account.now }
        due := account.link.ticker.deadline
        tick := account.now }
  /-- The peer takes its oldest message and acknowledges it. -/
  | acknowledge {message : MessageId} {rest : List MessageId}
    (hstage : account.link.stage = .awaitingMessage)
    (hbacklog : account.link.backlog = message :: rest) :
    Acts account .work
      { account with
        link := { account.link with
          backlog := rest
          acks := account.link.acks ++ [message]
          stage := .awaitingTick }
        acknowledged := account.acknowledged ++
          [⟨message, account.due, account.tick, account.now⟩] }
  /-- The peer waits, or it has stopped. -/
  | idle : Acts account .work account
  /-- Time passes. -/
  | pass (nanos : ℕ) : Acts account (.pass nanos) { account with now := account.now + nanos }
  /-- The acknowledgments are taken. -/
  | take : Acts account .take
      { account with
        link := { account.link with acks := [] }
        taken := account.taken ++ account.link.acks }
  /-- The peer is stopped. -/
  | abort : Acts account .abort
      { account with link := { account.link with backlog := [], stage := .stopped } }

variable {account next : Account} {step : LinkStep} {steps : List LinkStep}

/-- A message is refused by a peer that has stopped, held if there is room, and dropped
otherwise. -/
theorem acts_send (account : Account) (message : MessageId) :
    account.Acts (.send message) (account.step (.send message)) := by
  unfold Account.step Link.send
  split_ifs with hstage hroom
  · exact .refuse message hstage
  · exact .queue message hstage hroom
  · exact .drop message hstage (Nat.le_of_not_lt hroom)

/-- A peer that is heard takes a tick that is due, or acknowledges the oldest message that it holds,
or waits. -/
theorem acts_work (hheard : account.link.heard = true) :
    account.Acts .work (account.step .work) := by
  change account.Acts .work
    (((account.link.step? account.now).map account.proceed).getD account)
  unfold Link.step?
  split
  · next hstage =>
    split_ifs with hdue
    · have hacts := Acts.tick hstage (of_decide_eq_true hdue)
      simpa [proceed, hstage] using hacts
    · exact .idle
  · next hstage hbacklog =>
    rw [if_pos hheard]
    have hacts := Acts.acknowledge hstage hbacklog
    simpa [proceed, hstage] using hacts
  · exact .idle
  · exact .idle

/-- A step does what steps do, as long as somebody listens. -/
theorem acts_step (hheard : account.link.heard = true) (step : LinkStep) :
    account.Acts step (account.step step) := by
  cases step with
  | send message => exact acts_send account message
  | work => exact acts_work hheard
  | pass nanos => exact .pass nanos
  | take => exact .take
  | abort => exact .abort

/-- No step makes the listener go away. -/
theorem Acts.heard_eq (h : account.Acts step next) : next.link.heard = account.link.heard := by
  cases h <;> rfl

/-- A run takes its first step and runs on from there. -/
theorem run_cons (account : Account) (step : LinkStep) (steps : List LinkStep) :
    account.run (step :: steps) = (account.step step).run steps := rfl

/-- What every step keeps, every run keeps, as long as somebody listens. -/
theorem run_preserves {P : Account → Prop} (hheard : account.link.heard = true)
    (hacts : ∀ {account next : Account} {step : LinkStep}, P account → account.Acts step next →
      P next)
    (h : P account) (steps : List LinkStep) : P (account.run steps) := by
  induction steps generalizing account with
  | nil => exact h
  | cons step steps ih =>
    have hstep := acts_step hheard step
    exact ih (hstep.heard_eq.trans hheard) (hacts h hstep)

end Account

end FlowControl
