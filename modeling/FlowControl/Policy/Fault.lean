import FlowControl.Decimal.Style

/-!
# Why a policy is refused

A policy is refused for exactly one cause, the first that is found. Each cause carries the
offending value and has one message.
-/

namespace FlowControl

/-- The parameters of a policy. -/
inductive Parameter where
  /-- The ratio of acknowledged to sent traffic at which a peer keeps up. -/
  | highRatio
  /-- The ratio at which a peer is overloaded. -/
  | lowRatio
  /-- The divisor of the growth of a rate. -/
  | factor
  deriving DecidableEq, Repr

namespace Parameter

/-- The key of a parameter in a parameter map. -/
def key : Parameter → String
  | highRatio => "high_ratio"
  | lowRatio => "low_ratio"
  | factor => "factor"

end Parameter

/-- Why a policy is refused. -/
inductive PolicyFault where
  /-- The parameter map has too few or too many entries. -/
  | wrongParameterCount (expected found : Nat)
  /-- The parameter map lacks a parameter. -/
  | missingParameter (parameter : Parameter)
  /-- The text of a parameter is not a finite number. -/
  | invalidNumber (parameter : Parameter) (text : String)
  /-- The high ratio is not above zero and at most one. -/
  | highRatioOutOfRange (value : Float)
  /-- The low ratio is not above zero and at most one. -/
  | lowRatioOutOfRange (value : Float)
  /-- The high ratio is not above the low one. -/
  | highNotAboveLow (high low : Float)
  /-- The factor is not a finite number of at least one. -/
  | factorBelowOne (value : Float)
  /-- The window is shorter than a millisecond. -/
  | zeroWindow

namespace PolicyFault

/-- The message of a fault. -/
def message : PolicyFault → String
  | wrongParameterCount expected found =>
    "expected exactly " ++ expected.repr ++ " back-pressure parameters, found " ++ found.repr
  | missingParameter parameter => "missing parameter '" ++ parameter.key ++ "'"
  | invalidNumber parameter text =>
    "parameter '" ++ parameter.key ++ "' is not a number: '" ++ text ++ "'"
  | highRatioOutOfRange value =>
    "high ratio must be bigger than 0 and smaller or equal to 1, got "
      ++ NumberStyle.plain.render value
  | lowRatioOutOfRange value =>
    "low ratio must be bigger than 0 and smaller or equal to 1, got "
      ++ NumberStyle.plain.render value
  | highNotAboveLow high low =>
    "high ratio (" ++ NumberStyle.plain.render high ++ ") must be bigger than low ratio ("
      ++ NumberStyle.plain.render low ++ ")"
  | factorBelowOne value =>
    "factor must be bigger or equal to 1, got " ++ NumberStyle.plain.render value
  | zeroWindow => "window duration must be positive"

end PolicyFault

end FlowControl
