import FlowControl.Policy.Basic

/-!
# Settings

What a user can choose: the policy, the load to try it under, and the form of the output.
Settings are not checked; a policy or a load made of them is.
-/

namespace FlowControl

/-- The chosen policy. -/
structure PolicySettings where
  highRatio : Float
  lowRatio : Float
  factor : Float
  windowMs : UInt64

namespace PolicySettings

/-- The policy that is used when nothing is chosen. -/
def standard : PolicySettings := ⟨0.9, 0.1, 5, 2000⟩

/-- The settings as a parameter map. -/
def parameters (settings : PolicySettings) : Dictionary String :=
  .ofList
    [(Parameter.highRatio.key, NumberStyle.plain.render settings.highRatio),
     (Parameter.lowRatio.key, NumberStyle.plain.render settings.lowRatio),
     (Parameter.factor.key, NumberStyle.plain.render settings.factor)]

/-- The chosen window. -/
def window (settings : PolicySettings) : Span := .ofMillis settings.windowMs

/-- The policy of the settings. -/
def policy (settings : PolicySettings) : Except PolicyFault Policy :=
  Policy.ofParameters settings.parameters settings.window

end PolicySettings

/-- The load under which a policy is tried. -/
structure LoadSettings where
  /-- Messages per second that each sender tries to send. -/
  offeredRate : Float
  /-- Messages per second that each peer can acknowledge, one entry for each peer. -/
  capacities : List Float
  /-- How many messages a peer holds back before it drops one. -/
  queueDepth : UInt64
  durationSecs : UInt64

namespace LoadSettings

/-- The load that is used when nothing is chosen. -/
def standard : LoadSettings := ⟨200, [50, 150], 64, 30⟩

/-- How long the load lasts. -/
def duration (settings : LoadSettings) : Span := .ofSecs settings.durationSecs

end LoadSettings

/-- All that a user can choose. -/
structure Settings where
  policy : PolicySettings
  load : LoadSettings
  logJson : Bool
  reportJson : Bool

namespace Settings

/-- The settings that are used when nothing is chosen. -/
def standard : Settings := ⟨.standard, .standard, false, false⟩

end Settings

end FlowControl
