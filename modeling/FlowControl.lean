import FlowControl.Main
import FlowControl.Session
import FlowControl.Proofs.Course.Basic
import FlowControl.Proofs.Course.WindowGate
import FlowControl.Proofs.Course.Counting
import FlowControl.Proofs.Binary64.Nearest
import FlowControl.Proofs.Binary64.Unpacked
import FlowControl.Proofs.Binary64.Packing
import FlowControl.Proofs.Binary64.Size
import FlowControl.Proofs.Binary64.Arithmetic
import FlowControl.Proofs.Flow.Rates
import FlowControl.Proofs.Flow.Law
import FlowControl.Proofs.Course.Limit
import FlowControl.Proofs.Course.Phases
import FlowControl.Proofs.Text.Utf8
import FlowControl.Proofs.Roster.Basic
import FlowControl.Proofs.Course.Replay
import FlowControl.Proofs.Session.Life
import FlowControl.Proofs.Session.Replay
import FlowControl.Proofs.Roster.Listing
import FlowControl.Proofs.Session.Tracking
import FlowControl.Proofs.Session.FiniteMap
import FlowControl.Proofs.Course.Recovery
import FlowControl.Proofs.Session.FullWindows
import FlowControl.Proofs.Session.Isolation
import FlowControl.Proofs.Pacing.Interval
import FlowControl.Proofs.Pacing.Slots
import FlowControl.Proofs.Pacing.Backlog
import FlowControl.Proofs.Binary64.Decimals
import FlowControl.Proofs.Json.Finite
import FlowControl.Proofs.Policy.Validated
import FlowControl.Proofs.Binary64.Relative
import FlowControl.Proofs.Flow.Share
import FlowControl.Proofs.Course.Thresholds
import FlowControl.Proofs.Decimal.Shortest
import FlowControl.Proofs.Decimal.ReadBack
import FlowControl.Proofs.Text.Trim
import FlowControl.Proofs.Policy.Parameters
import FlowControl.Proofs.Trial.Moves
import FlowControl.Proofs.Trial.Wiring
import FlowControl.Proofs.Trial.Ends
import FlowControl.Proofs.Trial.Ledger
import FlowControl.Proofs.Trial.Lockstep
import FlowControl.Proofs.Binary64.Value
import FlowControl.Proofs.Flow.Envelope
import FlowControl.Proofs.Binary64.Places
import FlowControl.Proofs.Decimal.Grids
import FlowControl.Proofs.Json.Nearness
import FlowControl.Proofs.Json.Numbers
import FlowControl.Proofs.Json.Reals
import FlowControl.Proofs.Json.RoundTrip
import FlowControl.Proofs.Link.Account
import FlowControl.Proofs.Link.Fifo
import FlowControl.Proofs.Link.Spacing
import FlowControl.Proofs.Course.Traffic
import FlowControl.Proofs.Binary64.Order
import FlowControl.Proofs.Course.StatedLaw
import FlowControl.Proofs.Dictionary.Extensional
import FlowControl.Proofs.Session.Together
import FlowControl.Proofs.Policy.Rules
import FlowControl.Proofs.Time.Forward
import FlowControl.Proofs.Load.Acceptance
import FlowControl.Proofs.Json.Pretty
import FlowControl.Proofs.Json.Reports
import FlowControl.Proofs.Options.Draft
import FlowControl.Proofs.Options.Resolution
import FlowControl.Proofs.Time.Seconds
import FlowControl.Proofs.Course.Rates
import FlowControl.Proofs.Pacing.Antitone
