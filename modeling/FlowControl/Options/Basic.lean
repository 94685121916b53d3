import FlowControl.Settings

/-!
# Options

The options of the program, their names on the command line and in the environment, and what
their values mean. A draft holds the values that have been given so far.
-/

namespace FlowControl

/-- An option that takes a value. -/
inductive Choice where
  /-- The high ratio of the policy. -/
  | highRatio
  /-- The low ratio of the policy. -/
  | lowRatio
  /-- The factor of the policy. -/
  | factor
  /-- The window of the policy in milliseconds. -/
  | windowMs
  /-- The rate of the load. -/
  | offeredRate
  /-- The capacities of the peers. -/
  | peerCapacities
  /-- How many messages a peer holds back. -/
  | queueDepth
  /-- How long the load lasts in seconds. -/
  | durationSecs
  deriving DecidableEq, Repr

/-- An option that is either given or not. -/
inductive Switch where
  /-- Logs are written as JSON. -/
  | logJson
  /-- The report is written as JSON. -/
  | reportJson
  deriving DecidableEq, Repr

namespace Choice

/-- All options that take a value, in the order in which their variables are read. -/
def all : List Choice :=
  [highRatio, lowRatio, factor, windowMs, offeredRate, peerCapacities, queueDepth, durationSecs]

/-- The name of an option on the command line, after two dashes. -/
def name : Choice → String
  | highRatio => "high-ratio"
  | lowRatio => "low-ratio"
  | factor => "factor"
  | windowMs => "window-ms"
  | offeredRate => "offered-rate"
  | peerCapacities => "peer-capacities"
  | queueDepth => "queue-depth"
  | durationSecs => "duration-secs"

/-- The environment variable of an option. -/
def environmentName : Choice → String
  | highRatio => "BACKFLOW_HIGH_RATIO"
  | lowRatio => "BACKFLOW_LOW_RATIO"
  | factor => "BACKFLOW_FACTOR"
  | windowMs => "BACKFLOW_WINDOW_MS"
  | offeredRate => "BACKFLOW_OFFERED_RATE"
  | peerCapacities => "BACKFLOW_PEER_CAPACITIES"
  | queueDepth => "BACKFLOW_QUEUE_DEPTH"
  | durationSecs => "BACKFLOW_DURATION_SECS"

end Choice

namespace Switch

/-- All options without a value. -/
def all : List Switch := [logJson, reportJson]

/-- The name of an option on the command line, after two dashes. -/
def name : Switch → String
  | logJson => "log-json"
  | reportJson => "report-json"

/-- The environment variable of an option, if it has one. -/
def environmentName? : Switch → Option String
  | logJson => some "BACKFLOW_LOG_JSON"
  | reportJson => none

end Switch

/-- Why the program does not go to work. -/
inductive Interruption where
  /-- Help is asked for. -/
  | help
  /-- The version is asked for. -/
  | version
  /-- An argument is no option, and no value was expected. -/
  | unknownArgument (argument : String)
  /-- An option lacks its value. -/
  | missingValue (choice : Choice)
  /-- A value cannot be read. -/
  | badValue (choice : Choice) (text : String)
  /-- The variable of an option without a value is neither `true` nor `false`. -/
  | badSwitch (switch : Switch) (text : String)
  /-- An option is given twice. -/
  | repeated (option : String)
  /-- An option that takes no value has one. -/
  | unneededValue (option : String)
  deriving DecidableEq, Repr

/-- The values that have been given. -/
structure Draft where
  highRatio : Option Float
  lowRatio : Option Float
  factor : Option Float
  windowMs : Option UInt64
  offeredRate : Option Float
  peerCapacities : Option (List Float)
  queueDepth : Option UInt64
  durationSecs : Option UInt64
  logJson : Option Bool
  reportJson : Option Bool

/-- The pieces of a text between commas. -/
def splitCommas : List Char → List (List Char)
  | [] => [[]]
  | c :: cs =>
    match splitCommas cs with
    | [] => [[c]]
    | piece :: pieces => if c = ',' then [] :: piece :: pieces else (c :: piece) :: pieces

namespace Draft

/-- A draft without any value. -/
def empty : Draft := ⟨none, none, none, none, none, none, none, none, none, none⟩

/-- Whether an option has a value. -/
def has (draft : Draft) : Choice → Bool
  | .highRatio => draft.highRatio.isSome
  | .lowRatio => draft.lowRatio.isSome
  | .factor => draft.factor.isSome
  | .windowMs => draft.windowMs.isSome
  | .offeredRate => draft.offeredRate.isSome
  | .peerCapacities => draft.peerCapacities.isSome
  | .queueDepth => draft.queueDepth.isSome
  | .durationSecs => draft.durationSecs.isSome

/-- Whether a switch has a value. -/
def hasSwitch (draft : Draft) : Switch → Bool
  | .logJson => draft.logJson.isSome
  | .reportJson => draft.reportJson.isSome

/-- The real numbers that a list with commas holds. Each piece must be one. -/
def realList? (text : List Char) : Option (List Float) :=
  (splitCommas text).mapM Numeral.real?

/-- The draft with the value of an option, if the text can be read as one. Capacities are
added to the ones that are there, and any other value is replaced. -/
def put? (draft : Draft) (choice : Choice) (text : String) : Option Draft :=
  let cs := text.toList
  match choice with
  | .highRatio => (Numeral.real? cs).map fun x => { draft with highRatio := some x }
  | .lowRatio => (Numeral.real? cs).map fun x => { draft with lowRatio := some x }
  | .factor => (Numeral.real? cs).map fun x => { draft with factor := some x }
  | .windowMs => (Numeral.word? cs).map fun n => { draft with windowMs := some n }
  | .offeredRate => (Numeral.real? cs).map fun x => { draft with offeredRate := some x }
  | .peerCapacities =>
    (realList? cs).map fun xs =>
      { draft with peerCapacities := some (draft.peerCapacities.getD [] ++ xs) }
  | .queueDepth => (Numeral.word? cs).map fun n => { draft with queueDepth := some n }
  | .durationSecs => (Numeral.word? cs).map fun n => { draft with durationSecs := some n }

/-- The draft with the value of a switch. -/
def putSwitch (draft : Draft) (switch : Switch) (value : Bool) : Draft :=
  match switch with
  | .logJson => { draft with logJson := some value }
  | .reportJson => { draft with reportJson := some value }

/-- The settings of a draft, where an option without a value has its standard one. -/
def settings (draft : Draft) : Settings where
  policy :=
    { highRatio := draft.highRatio.getD Settings.standard.policy.highRatio
      lowRatio := draft.lowRatio.getD Settings.standard.policy.lowRatio
      factor := draft.factor.getD Settings.standard.policy.factor
      windowMs := draft.windowMs.getD Settings.standard.policy.windowMs }
  load :=
    { offeredRate := draft.offeredRate.getD Settings.standard.load.offeredRate
      capacities := draft.peerCapacities.getD Settings.standard.load.capacities
      queueDepth := draft.queueDepth.getD Settings.standard.load.queueDepth
      durationSecs := draft.durationSecs.getD Settings.standard.load.durationSecs }
  logJson := draft.logJson.getD Settings.standard.logJson
  reportJson := draft.reportJson.getD Settings.standard.reportJson

end Draft

end FlowControl
