import FlowControl.Proofs.Course.Counting
import FlowControl.Proofs.Course.Replay
import FlowControl.Proofs.Session.Life

/-!
# The journal of a session

Whatever happens in a session, what it tells about one of its flows is the journal of that flow:
it tells every closed window and every change of the flag, each once and in order.
-/

namespace FlowControl.Session

/-- **The journal is a faithful replay of every flow.** The judgements that a session tells of are
those of its flows, and what they tell about a flow replays it: the closed windows are told once
each; the limit starts out without one and is from then on the clamped rate of the last window;
the flow becomes overloaded and recovers by turns, each told right after its window; and the last
of these tells whether the flow is overloaded. -/
theorem journal_replays (policy : Policy) (millis : UInt64) (actions : List Action)
    (id : FlowId) (flow : Flow)
    (h : ((start policy millis).run actions).1.roster.flow? id = some flow) :
    ((start policy millis).ledger actions).map Prod.snd =
        ((start policy millis).run actions).2.filter Event.isJudgement ∧
      flow.peer = id.peer ∧ Replays ((start policy millis).journalOf id actions) flow := by
  refine ⟨ledger_map_snd actions, ?_⟩
  obtain ⟨born, steps, hrun, hjournal⟩ := exists_life rfl actions (course?_of_flow? h)
  have hpeer := Course.belongsTo_run policy id.peer born steps
  have hreplays := Course.replays_run policy id.peer born steps
  have hstart : (start policy millis).roster.policy = policy := rfl
  rw [hstart] at hrun hjournal
  rw [hrun, hjournal] at hreplays
  rw [hrun] at hpeer
  exact ⟨hpeer.1, hreplays⟩

/-- A peer that acknowledges nothing becomes overloaded, and it recovers in a window in which
everything is acknowledged. -/
theorem journal_replays_recovery :
    let policy : Policy := ⟨⟨0.9, 0.1, 5⟩, .ofMillis 1000, by decide⟩
    let id : FlowId := ⟨"peer", 0⟩
    let window : Action := .move (.advance (.ofMillis 1000))
    let actions : List Action :=
      [.track "peer", .record id .outgoing 10, window, .judgeAll, .judge id,
        .record id .outgoing 10, .record id .incoming 10, window, .judgeAll]
    ∃ flow, ((start policy 0).run actions).1.roster.flow? id = some flow ∧
      Replays ((start policy 0).journalOf id actions) flow ∧
      turns ((start policy 0).journalOf id actions) = [true, false] := by
  intro policy id window actions
  have hsome : (((start policy 0).run actions).1.roster.flow? id).isSome = true := by
    decide +kernel
  obtain ⟨flow, hflow⟩ := Option.isSome_iff_exists.mp hsome
  have hreplays := journal_replays policy 0 actions id flow hflow
  exact ⟨flow, hflow, hreplays.2.2, by decide +kernel⟩

end FlowControl.Session
