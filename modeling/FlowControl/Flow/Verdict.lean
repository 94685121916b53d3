import FlowControl.Policy.Tuning

/-!
# The control law

Once per window the rate of acknowledgments from a peer is compared with the rate of messages
to it. A peer whose ratio reaches the high ratio keeps up: a limit that binds grows by its
share, and a limit below what an idle peer still acknowledges is lifted to that. Any other
peer is limited to what it acknowledges times the ratio, and it is overloaded up to the low
ratio.
-/

namespace FlowControl

/-- What a closed window says about a peer. -/
structure Verdict where
  /-- Acknowledgments per second. -/
  incoming : Float
  /-- Messages per second. -/
  outgoing : Float
  /-- The share of the messages that was acknowledged. -/
  ratio : Float
  /-- The new limit, not yet clamped. -/
  rate : Float
  overloaded : Bool

/-- The permitted rate of a flow, in messages per second. -/
structure Allowance where
  rate : Float

namespace Allowance

/-- No limit at all, which is where every flow starts. -/
def unlimited : Allowance := ⟨unbounded⟩

/-- Whether there is no limit. -/
def isUnlimited (allowance : Allowance) : Bool := allowance.rate.isInf

/-- A rate made fit to be a limit: one that is not above zero, or no number, becomes zero. -/
def clamp (rate : Float) : Float := if 0 < rate then rate else 0

/-- The allowance with a rate made fit to be a limit. -/
def ofRate (rate : Float) : Allowance := ⟨clamp rate⟩

end Allowance

namespace Tuning

/-- The share of sent traffic that was acknowledged. A peer to which nothing was sent keeps
up. -/
def ratio (incoming outgoing : Float) : Float :=
  if 0 < outgoing then incoming / outgoing else 1

/-- The limit after a window in which the peer kept up. -/
def relax (tuning : Tuning) (current incoming outgoing : Float) : Float :=
  if current.isFinite ∧ current < outgoing then current + current / tuning.factor
  else if outgoing == 0 ∧ current < incoming then incoming
  else current

/-- The verdict on a window with the given rates, under a limit. -/
def verdict (tuning : Tuning) (current incoming outgoing : Float) : Verdict :=
  let share := ratio incoming outgoing
  if tuning.highRatio ≤ share then
    ⟨incoming, outgoing, share, tuning.relax current incoming outgoing, false⟩
  else
    ⟨incoming, outgoing, share, incoming * share, decide (share ≤ tuning.lowRatio)⟩

end Tuning

end FlowControl
