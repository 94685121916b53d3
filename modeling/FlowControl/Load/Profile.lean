import FlowControl.Fault
import FlowControl.Settings

/-!
# Acceptable loads

A load can be tried if its rates are within reach, there is a peer, and peers can hold a
message. Of several faults the first one is reported, and of several bad capacities the first
one of the list.
-/

namespace FlowControl

/-- Why a load cannot be tried. -/
inductive LoadFault where
  /-- The offered rate is not above zero and within reach. -/
  | offeredOutOfRange (rate : Float)
  /-- There is no peer. -/
  | noPeer
  /-- The capacity of a peer is not above zero and within reach. -/
  | capacityOutOfRange (capacity : Float)
  /-- Peers cannot hold a message. -/
  | zeroDepth

namespace LoadFault

/-- The message of a fault. -/
def message : LoadFault → String
  | offeredOutOfRange rate =>
    "offered rate must be in (0, 1000000], got " ++ NumberStyle.plain.render rate
  | noPeer => "at least one peer capacity is required"
  | capacityOutOfRange capacity =>
    "peer capacity must be in (0, 1000000], got " ++ NumberStyle.plain.render capacity
  | zeroDepth => "queue depth must be positive"

/-- The fault of the library that a load fault is. -/
def toFault (fault : LoadFault) : Fault := .load fault.message

end LoadFault

namespace LoadSettings

/-- Whether a rate is above zero and within reach. -/
def IsReachable (rate : Float) : Prop := 0 < rate ∧ rate ≤ 1000000

instance (rate : Float) : Decidable (IsReachable rate) := by unfold IsReachable; infer_instance

/-- Checks a load. -/
def check (settings : LoadSettings) : Except LoadFault Unit :=
  if ¬ IsReachable settings.offeredRate then .error (.offeredOutOfRange settings.offeredRate)
  else if settings.capacities.isEmpty then .error .noPeer
  else
    match settings.capacities.find? fun capacity => ¬ IsReachable capacity with
    | some capacity => .error (.capacityOutOfRange capacity)
    | none => if settings.queueDepth = 0 then .error .zeroDepth else .ok ()

end LoadSettings

end FlowControl
