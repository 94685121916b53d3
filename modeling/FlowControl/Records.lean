import FlowControl.Json.Schema
import FlowControl.Load.Report
import FlowControl.Flow.Basic

/-!
# The records of the library in JSON

How tunings, settings, snapshots, samples, summaries and reports are written and read. What
is read is not checked: a tuning read from JSON may be one that no parameters describe.
-/

namespace FlowControl

open Json (Kind Row Schema ReadFault)

namespace Tuning

/-- The fields of a tuning. -/
@[reducible] def schema : Schema where
  name := "BackPressureConfig"
  fields := [⟨"high_ratio", .real⟩, ⟨"low_ratio", .real⟩, ⟨"factor", .real⟩]

/-- The values of the fields of a tuning. -/
def toRow (tuning : Tuning) : Row schema.fields :=
  (tuning.highRatio, tuning.lowRatio, tuning.factor, ())

/-- The tuning with the given values. -/
def ofRow : Row schema.fields → Tuning
  | (high, low, factor, ()) => ⟨high, low, factor⟩

/-- A tuning as it is written. -/
def toJson (tuning : Tuning) : Json := schema.toJson tuning.toRow

/-- The tuning that a text is. -/
def decode (text : String) : Except ReadFault Tuning := (schema.decode text).map ofRow

end Tuning

namespace PolicySettings

/-- The fields of policy settings. -/
@[reducible] def schema : Schema where
  name := "BackPressureSettings"
  fields :=
    [⟨"high_ratio", .real⟩, ⟨"low_ratio", .real⟩, ⟨"factor", .real⟩,
     ⟨"window_ms", .word "u64"⟩]

/-- The values of the fields of policy settings. -/
def toRow (settings : PolicySettings) : Row schema.fields :=
  (settings.highRatio, settings.lowRatio, settings.factor, settings.windowMs, ())

/-- The policy settings with the given values. -/
def ofRow : Row schema.fields → PolicySettings
  | (high, low, factor, windowMs, ()) => ⟨high, low, factor, windowMs⟩

/-- Policy settings as they are written. -/
def toJson (settings : PolicySettings) : Json := schema.toJson settings.toRow

/-- The policy settings that a text is. -/
def decode (text : String) : Except ReadFault PolicySettings :=
  (schema.decode text).map ofRow

end PolicySettings

namespace LoadSettings

/-- The fields of load settings. -/
@[reducible] def schema : Schema where
  name := "SimulationSettings"
  fields :=
    [⟨"offered_rate", .real⟩, ⟨"peer_capacities", .reals⟩, ⟨"queue_depth", .word "usize"⟩,
     ⟨"duration_secs", .word "u64"⟩]

/-- The values of the fields of load settings. -/
def toRow (settings : LoadSettings) : Row schema.fields :=
  (settings.offeredRate, settings.capacities, settings.queueDepth, settings.durationSecs, ())

/-- The load settings with the given values. -/
def ofRow : Row schema.fields → LoadSettings
  | (offered, capacities, depth, duration, ()) => ⟨offered, capacities, depth, duration⟩

/-- Load settings as they are written. -/
def toJson (settings : LoadSettings) : Json := schema.toJson settings.toRow

/-- The load settings that a text is. -/
def decode (text : String) : Except ReadFault LoadSettings := (schema.decode text).map ofRow

end LoadSettings

namespace Snapshot

/-- The fields of a snapshot. -/
@[reducible] def schema : Schema where
  name := "BackPressureSnapshot"
  fields :=
    [⟨"peer", .text⟩, ⟨"rate", .optionalReal⟩, ⟨"overloaded", .flag⟩,
     ⟨"last_decision_ms", .word "u64"⟩, ⟨"windows_closed", .word "u64"⟩,
     ⟨"pending_incoming", .word "u64"⟩, ⟨"pending_outgoing", .word "u64"⟩,
     ⟨"observed_at", .stamp⟩]

/-- The values of the fields of a snapshot. -/
def toRow (snapshot : Snapshot) : Row schema.fields :=
  (snapshot.peer, snapshot.rate, snapshot.overloaded, snapshot.lastDecision,
    snapshot.windowsClosed, snapshot.pendingIncoming, snapshot.pendingOutgoing,
    snapshot.observedAt, ())

/-- The snapshot with the given values. -/
def ofRow : Row schema.fields → Snapshot
  | (peer, rate, overloaded, lastDecision, windowsClosed, incoming, outgoing, stamp, ()) =>
    ⟨peer, rate, overloaded, lastDecision, windowsClosed, incoming, outgoing, stamp⟩

/-- A snapshot as it is written. -/
def toJson (snapshot : Snapshot) : Json := schema.toJson snapshot.toRow

/-- The snapshot that a text is. -/
def decode (text : String) : Except ReadFault Snapshot := (schema.decode text).map ofRow

end Snapshot

namespace Sample

/-- The fields of a sample. -/
@[reducible] def schema : Schema where
  name := "WindowSample"
  fields :=
    [⟨"elapsed_ms", .word "u64"⟩, ⟨"peer", .text⟩, ⟨"rate", .optionalReal⟩,
     ⟨"overloaded", .flag⟩]

/-- The values of the fields of a sample. -/
def toRow (sample : Sample) : Row schema.fields :=
  (sample.elapsedMs, sample.peer, sample.rate, sample.overloaded, ())

/-- A sample as it is written. -/
def toJson (sample : Sample) : Json := schema.toJson sample.toRow

end Sample

namespace Summary

/-- The fields of a summary. -/
@[reducible] def schema : Schema where
  name := "PeerSummary"
  fields :=
    [⟨"peer", .text⟩, ⟨"capacity", .real⟩, ⟨"queued", .word "u64"⟩, ⟨"dropped", .word "u64"⟩,
     ⟨"acknowledged", .word "u64"⟩, ⟨"final_rate", .optionalReal⟩,
     ⟨"overloaded_windows", .word "usize"⟩]

/-- The values of the fields of a summary. -/
def toRow (summary : Summary) : Row schema.fields :=
  (summary.peer, summary.capacity, summary.queued, summary.dropped, summary.acknowledged,
    summary.finalRate, summary.overloadedWindows, ())

/-- A summary as it is written. -/
def toJson (summary : Summary) : Json := schema.toJson summary.toRow

end Summary

namespace Report

/-- A report as it is written. -/
def toJson (report : Report) : Json :=
  .record
    [("back_pressure", report.policy.toJson),
     ("samples", .list (report.samples.map Sample.toJson)),
     ("peers", .list (report.peers.map Summary.toJson))]

/-- The pretty text of a report. -/
def render (report : Report) : String := report.toJson.toPretty

end Report

end FlowControl
