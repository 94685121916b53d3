import FlowControl.Session
import FlowControl.Proofs.Course.Basic
import FlowControl.Proofs.Roster.Basic
import Mathlib.Data.List.Nodup

/-!
# The life of a flow in a session

In a session many flows share one clock and one policy. From the moment a flow is opened, what
happens in the session amounts for this flow to a run of its own: the moves of the clock, what
is recorded of it, and its judgements, however they came about. So what is proved of the course
of one flow holds of every flow of every session.
-/

namespace FlowControl

/-- Whether an event tells of a judgement. -/
def Event.isJudgement : Event → Bool
  | .tracking _ => false
  | .windowClosed _ _ _ => true
  | .overloaded _ _ _ => true
  | .recovered _ _ => true

/-- Judging a flow tells of the judgement alone. -/
theorem Policy.isJudgement_of_mem_judge {policy : Policy} {now : UInt64} {flow : Flow}
    {event : Event} (h : event ∈ (policy.judge now flow).2) : event.isJudgement = true := by
  unfold judge at h
  split at h
  · rcases List.mem_cons.mp h with rfl | hturn
    · rfl
    · unfold Flow.transition at hturn
      split at hturn <;> simp_all [Event.isJudgement]
  · cases h

/-- To wind a meter on by what is missing to a full turn is to reset it. -/
theorem Meter.record_neg_count (meter : Meter) : meter.record (-meter.count) = meter.reset := by
  rw [record, UInt64.add_right_neg, reset]

/-- A meter of a flow is reset by winding it on to zero. -/
theorem Flow.record_neg_count (flow : Flow) (direction : Direction) :
    flow.record direction (-(flow.meter direction).count) =
      flow.mapMeter direction Meter.reset := by
  cases direction <;> rw [record, mapMeter, mapMeter, meter, Meter.record_neg_count]

/-- Judgements leave the clock as it is. -/
theorem Course.clock_run_replicate_judge {policy : Policy} {course : Course} (n : ℕ) :
    (course.run policy (List.replicate n .judge)).clock = course.clock := by
  induction n generalizing course with
  | zero => rfl
  | succ n ih => rw [List.replicate_succ, run_cons, ih]; rfl

/-- What is told about one flow. -/
def FlowId.told (id : FlowId) (events : List (FlowId × Event)) : List Event :=
  (events.filter fun entry => entry.1 = id).map Prod.snd

/-- What is told about a flow in two parts is told in the first one and then in the second. -/
@[simp] theorem FlowId.told_append (id : FlowId) (first second : List (FlowId × Event)) :
    id.told (first ++ second) = id.told first ++ id.told second := by
  simp [told]

/-- What is told about one flow is all that is told, or nothing. -/
theorem FlowId.told_map (id other : FlowId) (events : List Event) :
    id.told (events.map (other, ·)) = if other = id then events else [] := by
  by_cases h : other = id <;> simp [told, h, List.filter_map, Function.comp_def]

namespace Roster

/-- What is told of judging flows one after the other, each event with the flow it is about. -/
def judgements (roster : Roster) (now : UInt64) : List FlowId → List (FlowId × Event)
  | [] => []
  | id :: ids =>
    (roster.judge now id).2.map (id, ·) ++ (roster.judge now id).1.judgements now ids

variable {roster : Roster} {now : UInt64} {id : FlowId}

/-- Without the flows that the events are about, this is what judging tells. -/
theorem judgements_map_snd (ids : List FlowId) :
    (roster.judgements now ids).map Prod.snd = (roster.judgeEach now ids).2 := by
  induction ids generalizing roster with
  | nil => rfl
  | cons id ids ih =>
    rw [judgements, judgeEach, List.map_append, ih]
    simp [Function.comp_def]

/-- Judging flows tells of judgements alone. -/
theorem isJudgement_of_mem_judgeEach {event : Event} (ids : List FlowId)
    (h : event ∈ (roster.judgeEach now ids).2) : event.isJudgement = true := by
  induction ids generalizing roster with
  | nil => cases h
  | cons id ids ih =>
    rw [judgeEach, List.mem_append] at h
    rcases h with h | h
    · rw [judge_snd] at h
      cases hflow : roster.flow? id with
      | none => simp [hflow] at h
      | some flow => exact Policy.isJudgement_of_mem_judge (by simpa [hflow] using h)
    · exact ih h

/-- Judgements of what is not there tell nothing of it and open nothing. -/
theorem judgeEach_of_eq_none (ids : List FlowId) (h : roster.flow? id = none) :
    (roster.judgeEach now ids).1.flow? id = none ∧ id.told (roster.judgements now ids) = [] := by
  induction ids generalizing roster with
  | nil => exact ⟨h, rfl⟩
  | cons first ids ih =>
    have hnext : (roster.judge now first).1.flow? id = none := by
      rw [flow?_judge]
      split
      · next heq => rw [← heq, h]; rfl
      · exact h
    obtain ⟨hflow, htold⟩ := ih hnext
    refine ⟨hflow, ?_⟩
    rw [judgements, FlowId.told_append, htold, FlowId.told_map]
    split
    · next heq => rw [heq, judge_snd, h]; rfl
    · rfl

/-- Flows judged one after the other: each is judged as often as it is named. -/
theorem judgeEach_of_eq_some {flow : Flow} (ids : List FlowId) (h : roster.flow? id = some flow) :
    let course : Course := ⟨⟨now⟩, flow⟩
    let steps := List.replicate (ids.count id) Course.Step.judge
    (roster.judgeEach now ids).1.flow? id = some (course.run roster.policy steps).flow ∧
      id.told (roster.judgements now ids) = course.journal roster.policy steps := by
  induction ids generalizing roster flow with
  | nil => exact ⟨h, rfl⟩
  | cons first ids ih =>
    rw [judgements, judgeEach]
    by_cases heq : first = id
    · subst heq
      have hnext : (roster.judge now first).1.flow? first =
          some (roster.policy.judge now flow).1 := by
        rw [flow?_judge, if_pos rfl, h]
        rfl
      have htold : (roster.judge now first).2 = (roster.policy.judge now flow).2 := by
        rw [judge_snd, h]
        rfl
      have hrest := ih hnext
      rw [judge_policy] at hrest
      rw [List.count_cons_self, List.replicate_succ]
      refine ⟨hrest.1, ?_⟩
      rw [FlowId.told_append, hrest.2, FlowId.told_map, if_pos rfl, htold]
      rfl
    · have hnext : (roster.judge now first).1.flow? id = some flow := by
        rw [flow?_judge, if_neg (Ne.symm heq), h]
      have hrest := ih hnext
      rw [judge_policy] at hrest
      rw [List.count_cons_of_ne heq]
      refine ⟨hrest.1, ?_⟩
      rw [FlowId.told_append, hrest.2, FlowId.told_map, if_neg heq, List.nil_append]

/-- Different flows judged one after the other: each of them is judged, and no other flow is. -/
theorem judgeEach_of_nodup (roster : Roster) (now : UInt64) {ids : List FlowId} (h : ids.Nodup)
    (id : FlowId) :
    (roster.judgeEach now ids).1.flow? id =
        (if id ∈ ids then (roster.judge now id).1.flow? id else roster.flow? id) ∧
      id.told (roster.judgements now ids) = if id ∈ ids then (roster.judge now id).2 else [] := by
  rw [flow?_judge, if_pos rfl, judge_snd]
  cases hflow : roster.flow? id with
  | none =>
    rw [(judgeEach_of_eq_none ids hflow).1, (judgeEach_of_eq_none ids hflow).2]
    simp
  | some flow =>
    rw [(judgeEach_of_eq_some ids hflow).1, (judgeEach_of_eq_some ids hflow).2]
    by_cases hid : id ∈ ids
    · rw [List.count_eq_one_of_mem h hid, if_pos hid, if_pos hid]
      simp [Course.step, Course.journal, Course.tells]
    · rw [List.count_eq_zero_of_not_mem hid, if_neg hid, if_neg hid]
      exact ⟨rfl, rfl⟩

end Roster

namespace Session

/-- The flows that an action judges, one after the other. -/
def judged (session : Session) : Action → List FlowId
  | .judge flow => [flow]
  | .judgeEach flows => flows
  | .judgeAll => session.roster.trackedIds
  | .move _ => []
  | .openFlow _ => []
  | .track _ => []
  | .untrack _ => []
  | .record _ _ _ => []
  | .resetMeter _ _ => []

/-- What an action tells of judgements, each event with the flow that was judged. -/
def judgements (session : Session) (action : Action) : List (FlowId × Event) :=
  session.roster.judgements session.clock.now (session.judged action)

/-- What a run tells of judgements, each event with the flow that was judged. -/
def ledger (session : Session) : List Action → List (FlowId × Event)
  | [] => []
  | action :: actions => session.judgements action ++ (session.act action).1.ledger actions

/-- What a run tells of the judgements of a flow. -/
def journalOf (session : Session) (id : FlowId) (actions : List Action) : List Event :=
  id.told (session.ledger actions)

/-- A flow that is there, with the clock of the session. -/
def course? (session : Session) (id : FlowId) : Option Course :=
  (session.roster.flow? id).map fun flow => ⟨session.clock, flow⟩

/-- What a meter of a flow has counted, nothing if the flow is not there. -/
def pending (session : Session) (id : FlowId) (direction : Direction) : UInt64 :=
  ((session.roster.flow? id).map fun flow => (flow.meter direction).count).getD 0

/-- What an action is for a flow. Resetting a meter is, for the flow, to wind it on to zero. -/
def steps (session : Session) (id : FlowId) : Action → List Course.Step
  | .move move => [.move move]
  | .record flow direction events => if flow = id then [.record direction events] else []
  | .resetMeter flow direction =>
    if flow = id then [.record direction (-session.pending id direction)] else []
  | action => List.replicate ((session.judged action).count id) .judge

/-- What a list of actions is for a flow. -/
def life (session : Session) (id : FlowId) : List Action → List Course.Step
  | [] => []
  | action :: actions => session.steps id action ++ (session.act action).1.life id actions

variable {session : Session} {id : FlowId} {course : Course}

/-- No action changes the policy. -/
@[simp] theorem act_policy (action : Action) :
    (session.act action).1.roster.policy = session.roster.policy := by
  cases action <;> simp [act, withRoster, Roster.judgeAll]

/-- Without actions nothing changes, and nothing is told. -/
@[simp] theorem run_nil : session.run [] = (session, []) := rfl

/-- A run takes its first action and runs on from there. -/
theorem run_cons (action : Action) (actions : List Action) :
    session.run (action :: actions) =
      (((session.act action).1.run actions).1,
        (session.act action).2 ++ ((session.act action).1.run actions).2) := rfl

/-- No run changes the policy. -/
@[simp] theorem run_policy (actions : List Action) :
    (session.run actions).1.roster.policy = session.roster.policy := by
  induction actions generalizing session with
  | nil => rfl
  | cons action actions ih => exact ih.trans (act_policy action)

/-- A run of two parts goes on in the session that the first part ended in. -/
theorem run_append (first second : List Action) :
    (session.run (first ++ second)).1 = ((session.run first).1.run second).1 := by
  induction first generalizing session with
  | nil => rfl
  | cons action actions ih => exact ih

/-- To judge a flow is to judge it as the only one. -/
theorem act_judge (flow : FlowId) :
    session.act (.judge flow) =
      session.withRoster (session.roster.judgeEach session.clock.now [flow]) := by
  simp [act, Roster.judgeEach]

/-- What the judgements tell is what the action tells, apart from the tracking of peers. -/
theorem judgements_map_snd (action : Action) :
    (session.judgements action).map Prod.snd =
      (session.act action).2.filter Event.isJudgement := by
  have hjudged (ids : List FlowId) :
      (session.roster.judgements session.clock.now ids).map Prod.snd =
        (session.roster.judgeEach session.clock.now ids).2.filter Event.isJudgement := by
    rw [Roster.judgements_map_snd, List.filter_eq_self.mpr]
    exact fun event => Roster.isJudgement_of_mem_judgeEach ids
  cases action with
  | judge flow => rw [act_judge]; exact hjudged _
  | judgeEach flows => exact hjudged flows
  | judgeAll => exact hjudged _
  | track peer =>
    have htold : (session.roster.track peer).2.filter Event.isJudgement = [] := by
      unfold Roster.track
      split <;> rfl
    exact htold.symm
  | _ => rfl

/-- Without the flows that the events are about, the ledger of a run is what the run tells, apart
from the tracking of peers. -/
theorem ledger_map_snd (actions : List Action) :
    (session.ledger actions).map Prod.snd =
      (session.run actions).2.filter Event.isJudgement := by
  induction actions generalizing session with
  | nil => rfl
  | cons action actions ih =>
    rw [ledger, List.map_append, judgements_map_snd, ih, run_cons, List.filter_append]

/-- The course of a flow is the flow with the clock of the session. -/
theorem course?_eq_some_iff :
    session.course? id = some course ↔
      session.roster.flow? id = some course.flow ∧ session.clock = course.clock := by
  obtain ⟨clock, flow⟩ := course
  rw [course?, Option.map_eq_some_iff]
  constructor
  · rintro ⟨flow', hflow, heq⟩
    cases heq
    exact ⟨hflow, rfl⟩
  · rintro ⟨hflow, rfl⟩
    exact ⟨flow, hflow, rfl⟩

/-- A flow that is there has a course. -/
theorem course?_of_flow? {flow : Flow} (h : session.roster.flow? id = some flow) :
    session.course? id = some ⟨session.clock, flow⟩ :=
  course?_eq_some_iff.mpr ⟨h, rfl⟩

/-- An action is for a flow a few steps of its course. -/
theorem course?_act (h : session.course? id = some course) (action : Action) :
    (session.act action).1.course? id =
      some (course.run session.roster.policy (session.steps id action)) := by
  obtain ⟨clock, flow⟩ := course
  obtain ⟨hflow, rfl⟩ := course?_eq_some_iff.mp h
  have hne (peer : Peer) : id ≠ session.roster.nextId peer := by
    rintro rfl
    simp at hflow
  have hjudged (ids : List FlowId) :
      (session.withRoster (session.roster.judgeEach session.clock.now ids)).1.course? id =
        some (Course.run session.roster.policy ⟨session.clock, flow⟩
          (List.replicate (ids.count id) .judge)) := by
    refine course?_eq_some_iff.mpr ⟨(Roster.judgeEach_of_eq_some ids hflow).1, ?_⟩
    rw [Course.clock_run_replicate_judge]
    rfl
  cases action with
  | move move => exact course?_eq_some_iff.mpr ⟨hflow, rfl⟩
  | openFlow peer =>
    refine course?_eq_some_iff.mpr ⟨?_, rfl⟩
    exact Roster.flow?_openFlow.trans ((if_neg (hne peer)).trans hflow)
  | track peer =>
    refine course?_eq_some_iff.mpr ⟨?_, rfl⟩
    exact Roster.flow?_track.trans ((if_neg fun h => hne peer h.2).trans hflow)
  | untrack peer => exact course?_eq_some_iff.mpr ⟨Roster.flow?_untrack.trans hflow, rfl⟩
  | record other direction events =>
    refine course?_eq_some_iff.mpr ?_
    by_cases heq : other = id
    · subst heq
      simp [act, withRoster, Roster.flow?_modify, steps, hflow, Course.step]
    · simp [act, withRoster, Roster.flow?_modify, steps, hflow, heq, Ne.symm heq]
  | resetMeter other direction =>
    refine course?_eq_some_iff.mpr ?_
    by_cases heq : other = id
    · subst heq
      simp [act, withRoster, Roster.flow?_modify, steps, hflow, Course.step, pending,
        Flow.record_neg_count]
    · simp [act, withRoster, Roster.flow?_modify, steps, hflow, heq, Ne.symm heq]
  | judge other => rw [act_judge]; exact hjudged [other]
  | judgeEach flows => exact hjudged flows
  | judgeAll => exact hjudged session.roster.trackedIds

/-- An action tells of a flow what the steps of its course tell. -/
theorem told_judgements (h : session.course? id = some course) (action : Action) :
    id.told (session.judgements action) =
      course.journal session.roster.policy (session.steps id action) := by
  obtain ⟨clock, flow⟩ := course
  obtain ⟨hflow, rfl⟩ := course?_eq_some_iff.mp h
  have hjudged (ids : List FlowId) :
      id.told (session.roster.judgements session.clock.now ids) =
        Course.journal session.roster.policy ⟨session.clock, flow⟩
          (List.replicate (ids.count id) .judge) :=
    (Roster.judgeEach_of_eq_some ids hflow).2
  cases action with
  | judge other => exact hjudged [other]
  | judgeEach flows => exact hjudged flows
  | judgeAll => exact hjudged session.roster.trackedIds
  | record other direction events =>
    by_cases heq : other = id <;> simp [steps, heq] <;> rfl
  | resetMeter other direction =>
    by_cases heq : other = id <;> simp [steps, heq] <;> rfl
  | _ => rfl

/-- What happens in a session is for a flow a run of its course. -/
theorem course?_run (h : session.course? id = some course) (actions : List Action) :
    (session.run actions).1.course? id =
        some (course.run session.roster.policy (session.life id actions)) ∧
      session.journalOf id actions =
        course.journal session.roster.policy (session.life id actions) := by
  induction actions generalizing session course with
  | nil => exact ⟨h, rfl⟩
  | cons action actions ih =>
    obtain ⟨hcourse, hjournal⟩ := ih (course?_act h action)
    rw [act_policy] at hcourse hjournal
    rw [life, Course.run_append, Course.journal_append]
    refine ⟨hcourse, ?_⟩
    rw [journalOf, ledger, FlowId.told_append, told_judgements h]
    exact congrArg _ hjournal

/-- An action opens a flow: it opens the next flow to a peer, or it tracks a peer that is not
tracked. -/
def Opens (session : Session) (id : FlowId) (action : Action) : Prop :=
  id = session.roster.nextId id.peer ∧
    (action = .openFlow id.peer ∨ action = .track id.peer ∧ session.roster.find? id.peer = none)

/-- A flow that is opened is a new one, under the clock as it stands. -/
theorem Opens.course?_act {action : Action} (h : session.Opens id action) :
    (session.act action).1.course? id =
      some (Course.start session.roster.policy id.peer session.clock.now) := by
  obtain ⟨hid, rfl | ⟨rfl, hnone⟩⟩ := h
  · exact course?_eq_some_iff.mpr ⟨Roster.flow?_openFlow.trans (if_pos hid), rfl⟩
  · exact course?_eq_some_iff.mpr ⟨Roster.flow?_track.trans (if_pos ⟨hnone, hid⟩), rfl⟩

/-- A flow that is not there comes to be only by being opened. -/
theorem flow?_act_of_not_opens (h : session.roster.flow? id = none) {action : Action}
    (hopens : ¬ session.Opens id action) : (session.act action).1.roster.flow? id = none := by
  have hmodify (other : FlowId) (f : Flow → Flow) :
      (session.roster.modify other f).flow? id = none := by
    rw [Roster.flow?_modify]
    split
    · next heq => rw [← heq, h]; rfl
    · exact h
  cases action with
  | move move => exact h
  | openFlow peer =>
    refine Roster.flow?_openFlow.trans ((if_neg ?_).trans h)
    rintro rfl
    exact hopens ⟨rfl, Or.inl rfl⟩
  | track peer =>
    refine Roster.flow?_track.trans ((if_neg ?_).trans h)
    rintro ⟨hnone, rfl⟩
    exact hopens ⟨rfl, Or.inr ⟨rfl, hnone⟩⟩
  | untrack peer => exact Roster.flow?_untrack.trans h
  | record other direction events => exact hmodify other _
  | resetMeter other direction => exact hmodify other _
  | judge other => rw [act_judge]; exact (Roster.judgeEach_of_eq_none [other] h).1
  | judgeEach flows => exact (Roster.judgeEach_of_eq_none flows h).1
  | judgeAll => exact (Roster.judgeEach_of_eq_none _ h).1

/-- Of a flow that is not there nothing is told. -/
theorem told_judgements_of_eq_none (h : session.roster.flow? id = none) (action : Action) :
    id.told (session.judgements action) = [] :=
  (Roster.judgeEach_of_eq_none _ h).2

/-- **The life of a flow.** A flow that was opened in a session has gone through a run of its own
since then, from a new flow on, and of this run everything is told that is told of the flow. -/
theorem exists_life (h : session.roster.flow? id = none) (actions : List Action)
    (hcourse : (session.run actions).1.course? id = some course) :
    ∃ millis steps,
      (Course.start session.roster.policy id.peer millis).run session.roster.policy steps =
          course ∧
        (Course.start session.roster.policy id.peer millis).journal session.roster.policy steps =
          session.journalOf id actions := by
  induction actions generalizing session with
  | nil => simp [course?, h] at hcourse
  | cons action actions ih =>
    have hsilent : session.journalOf id (action :: actions) =
        (session.act action).1.journalOf id actions := by
      rw [journalOf, ledger, FlowId.told_append, told_judgements_of_eq_none h, List.nil_append]
      rfl
    rw [hsilent]
    by_cases hopens : session.Opens id action
    · obtain ⟨hrun, hjournal⟩ := course?_run hopens.course?_act actions
      rw [act_policy] at hrun hjournal
      rw [run_cons] at hcourse
      exact ⟨_, _, Option.some_inj.mp (hrun.symm.trans hcourse), hjournal.symm⟩
    · simpa using ih (flow?_act_of_not_opens h hopens) hcourse

end Session

end FlowControl
