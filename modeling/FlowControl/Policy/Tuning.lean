import FlowControl.Dictionary
import FlowControl.Decimal.Numeral
import FlowControl.Policy.Fault
import FlowControl.Text.Blank

/-!
# Tunings

The three numbers that tune the control law, checked as numbers or read from a map of
parameter texts. Of several faults the first one in the order high ratio, low ratio, their
order, factor is reported; a parameter map is read in full before its numbers are checked.
-/

namespace FlowControl

/-- The numbers that tune the control law. -/
structure Tuning where
  /-- The ratio of acknowledged to sent traffic from which on a peer keeps up. -/
  highRatio : Float
  /-- The ratio up to which a peer is overloaded. -/
  lowRatio : Float
  /-- A binding limit grows by the factor's share of itself in each good window. -/
  factor : Float

namespace Tuning

/-- Whether a number is a ratio: above zero and at most one. -/
def IsRatio (x : Float) : Prop := 0 < x ∧ x ≤ 1

instance (x : Float) : Decidable (IsRatio x) := by unfold IsRatio; infer_instance

/-- The tuning with the given numbers, if they are acceptable. -/
def check (high low factor : Float) : Except PolicyFault Tuning :=
  if ¬ IsRatio high then .error (.highRatioOutOfRange high)
  else if ¬ IsRatio low then .error (.lowRatioOutOfRange low)
  else if high ≤ low then .error (.highNotAboveLow high low)
  else if ¬ 1 ≤ factor ∨ factor.isInf then .error (.factorBelowOne factor)
  else .ok ⟨high, low, factor⟩

/-- The number of parameters of a tuning. -/
def parameterCount : Nat := 3

/-- The finite number that the text of a parameter is, blanks around it set aside. -/
def readParameter (parameters : Dictionary String) (parameter : Parameter) :
    Except PolicyFault Float :=
  match parameters.get? parameter.key with
  | none => .error (.missingParameter parameter)
  | some text =>
    match Numeral.real? (Text.trim text.toList) with
    | some x => if x.isFinite then .ok x else .error (.invalidNumber parameter text)
    | none => .error (.invalidNumber parameter text)

/-- The tuning that a parameter map describes. -/
def ofParameters (parameters : Dictionary String) : Except PolicyFault Tuning :=
  if parameters.size ≠ parameterCount then
    .error (.wrongParameterCount parameterCount parameters.size)
  else do
    let high ← readParameter parameters .highRatio
    let low ← readParameter parameters .lowRatio
    let factor ← readParameter parameters .factor
    check high low factor

end Tuning

end FlowControl
