import FlowControl.Policy.Fault

/-!
# Faults

What can go wrong in the library, by the part that it comes from. A fault has a message for
the user, a name for its kind, and a source where another fault lies under it.
-/

namespace FlowControl

/-- A fault of any part. -/
inductive Fault where
  /-- A policy is refused. -/
  | policy (fault : PolicyFault)
  /-- A message cannot be handed to a peer. -/
  | transport (text : String)
  /-- A load cannot be tried. -/
  | load (text : String)
  /-- The system cannot read or write. -/
  | system (text : String)
  /-- A text cannot be read as data. -/
  | data (text : String)

namespace Fault

/-- The message of a fault. -/
def message : Fault → String
  | policy fault => "Configuration error: " ++ fault.message
  | transport text => "Transport error: " ++ text
  | load text => "Simulation error: " ++ text
  | system text => "I/O error: " ++ text
  | data text => "Serialization error: " ++ text

/-- The name of a fault's kind. -/
def kind : Fault → String
  | policy _ => "configuration_error"
  | transport _ => "transport_error"
  | load _ => "simulation_error"
  | system _ => "io_error"
  | data _ => "serialization_error"

/-- The message of the fault that lies under a fault. -/
def source? : Fault → Option String
  | policy fault => some fault.message
  | system text => some text
  | data text => some text
  | transport _ => none
  | load _ => none

end Fault

end FlowControl
