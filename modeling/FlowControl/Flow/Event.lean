import FlowControl.Flow.Verdict

/-!
# Journal events

What the library tells about its decisions, as data. Each event has a level and a message;
its other fields are the values it carries.
-/

namespace FlowControl

/-- A peer is known by its name. Peers are ordered by the code points of their names. -/
abbrev Peer := String

/-- How much an event matters. -/
inductive Level where
  /-- Of interest to those who follow every decision. -/
  | debug
  /-- Worth knowing. -/
  | info
  /-- A peer is in trouble. -/
  | warn
  deriving DecidableEq, Repr

/-- What the library tells about its decisions. -/
inductive Event where
  /-- A peer is tracked from now on. -/
  | tracking (peer : Peer)
  /-- A window of a peer is closed under a limit, with a verdict whose rate is not yet clamped. -/
  | windowClosed (peer : Peer) (previousRate : Float) (verdict : Verdict)
  /-- A peer that kept up is overloaded now. -/
  | overloaded (peer : Peer) (ratio rate : Float)
  /-- A peer that was overloaded no longer is. -/
  | recovered (peer : Peer) (rate : Float)

namespace Event

/-- The peer that an event is about. -/
def peer : Event → Peer
  | tracking peer => peer
  | windowClosed peer _ _ => peer
  | overloaded peer _ _ => peer
  | recovered peer _ => peer

/-- The level of an event. -/
def level : Event → Level
  | tracking _ => .debug
  | windowClosed _ _ _ => .debug
  | overloaded _ _ _ => .warn
  | recovered _ _ => .info

/-- The message of an event. -/
def message : Event → String
  | tracking _ => "tracking back-pressure for new peer"
  | windowClosed _ _ _ => "closed back-pressure window"
  | overloaded _ _ _ => "peer overloaded"
  | recovered _ _ => "peer recovered"

end Event

end FlowControl
