import FlowControl.Policy.Tuning
import FlowControl.Time.Span

/-!
# Policies

A policy is a tuning together with the length of the window over which a peer is judged,
which is at least one whole millisecond.
-/

namespace FlowControl

/-- A tuning and a window of at least a millisecond. -/
structure Policy where
  tuning : Tuning
  window : Span
  window_ne_zero : window.millis ≠ 0

namespace Policy

/-- The policy with a tuning and a window. -/
def ofTuning (tuning : Tuning) (window : Span) : Except PolicyFault Policy :=
  if h : window.millis = 0 then .error .zeroWindow else .ok ⟨tuning, window, h⟩

/-- The policy of a parameter map and a window. -/
def ofParameters (parameters : Dictionary String) (window : Span) : Except PolicyFault Policy := do
  let tuning ← Tuning.ofParameters parameters
  ofTuning tuning window

end Policy

end FlowControl
