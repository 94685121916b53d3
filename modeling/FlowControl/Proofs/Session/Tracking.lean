import FlowControl.Proofs.Course.Counting
import FlowControl.Proofs.Course.Limit
import FlowControl.Proofs.Roster.Listing
import FlowControl.Proofs.Session.Life

/-!
# Tracking as a finite map

Which flow of a peer is tracked is a finite map from peers to flows: tracking a peer puts a new
flow under it unless there is one, untracking it takes away what is there, and nothing else
changes the map. Flows are never mixed up. One that is tracked no longer stays as it is for those
who know it, and the next flow to the same peer is another one.
-/

namespace FlowControl.Session

open Binary64

/-- Whether an action is done to a flow by its id. -/
def Action.Names (id : FlowId) : Action → Prop
  | .record flow _ _ => flow = id
  | .resetMeter flow _ => flow = id
  | .judge flow => flow = id
  | .judgeEach flows => id ∈ flows
  | .move _ => False
  | .openFlow _ => False
  | .track _ => False
  | .untrack _ => False
  | .judgeAll => False

variable {session : Session} {id : FlowId} {peer : Peer} {flow : Flow}

/-- What an action does to the map from peers to tracked flows. -/
theorem find?_act (action : Action) (peer : Peer) :
    (session.act action).1.roster.find? peer =
      match action with
      | .track other =>
        if peer = other then
          some ((session.roster.find? other).getD (session.roster.nextId other))
        else session.roster.find? peer
      | .untrack other => if peer = other then none else session.roster.find? peer
      | _ => session.roster.find? peer := by
  cases action with
  | track other => exact Roster.find?_track
  | untrack other => exact Roster.find?_untrack
  | _ => simp [act, withRoster, Roster.judgeAll]

/-- A flow that is there stays there. -/
theorem exists_flow?_act (h : session.roster.flow? id = some flow) (action : Action) :
    ∃ later, (session.act action).1.roster.flow? id = some later :=
  ⟨_, (course?_eq_some_iff.mp (course?_act (course?_of_flow? h) action)).1⟩

/-- A flow stays as it is if an action is not done to it. -/
theorem flow?_act_of_not_names (h : session.roster.flow? id = some flow) {action : Action}
    (hnames : ¬ action.Names id)
    (htracked : action = .judgeAll → session.roster.find? id.peer ≠ some id) :
    (session.act action).1.roster.flow? id = some flow := by
  have hcourse := course?_act (course?_of_flow? h) action
  have hsteps : (Course.run session.roster.policy ⟨session.clock, flow⟩
      (session.steps id action)).flow = flow := by
    have hzero (ids : List FlowId) (hid : id ∉ ids) :
        (Course.run session.roster.policy ⟨session.clock, flow⟩
          (List.replicate (ids.count id) .judge)).flow = flow := by
      rw [List.count_eq_zero_of_not_mem hid]
      rfl
    cases action with
    | record other _ _ =>
      have hne : ¬ other = id := hnames
      rw [steps, if_neg hne]
      rfl
    | resetMeter other _ =>
      have hne : ¬ other = id := hnames
      rw [steps, if_neg hne]
      rfl
    | judge other => exact hzero [other] (by simpa using Ne.symm hnames)
    | judgeEach flows => exact hzero flows hnames
    | judgeAll => exact hzero _ (mt Roster.mem_trackedIds.mp (htracked rfl))
    | _ => rfl
  exact (course?_eq_some_iff.mp hcourse).1.trans (congrArg some hsteps)

/-- A peer that is not tracked gets a new flow, under an id that no flow has. -/
theorem flow?_act_track (h : session.roster.find? peer = none) :
    (session.act (.track peer)).1.roster.flow? (session.roster.nextId peer) =
      some (session.roster.policy.newFlow peer) :=
  Roster.flow?_track.trans (if_pos ⟨h, rfl⟩)

/-- What is found after an action was found before, or it is the new flow of a peer that was not
tracked. -/
theorem find?_of_find?_act {action : Action}
    (h : (session.act action).1.roster.find? peer = some id) :
    session.roster.find? peer = some id ∨
      action = .track peer ∧ session.roster.find? peer = none ∧
        id = session.roster.nextId peer := by
  rw [find?_act] at h
  split at h
  · next other =>
    split at h
    · next heq =>
      subst heq
      cases htracked : session.roster.find? peer with
      | some tracked =>
        rw [htracked] at h
        exact Or.inl h
      | none =>
        rw [htracked] at h
        exact Or.inr ⟨rfl, rfl, (Option.some_inj.mp h).symm⟩
    · exact Or.inl h
  · split at h
    · cases h
    · exact Or.inl h
  · exact Or.inl h

/-- What is found after a run is there. -/
theorem exists_of_find?_run
    (h : ∀ peer id, session.roster.find? peer = some id →
      ∃ flow, session.roster.flow? id = some flow)
    (actions : List Action) (peer : Peer) (id : FlowId) :
    (session.run actions).1.roster.find? peer = some id →
      ∃ flow, (session.run actions).1.roster.flow? id = some flow := by
  induction actions generalizing session with
  | nil => exact h peer id
  | cons action actions ih =>
    apply ih
    intro peer id hfind
    rcases find?_of_find?_act hfind with hfind | ⟨rfl, hnone, rfl⟩
    · obtain ⟨flow, hflow⟩ := h peer id hfind
      exact exists_flow?_act hflow action
    · exact ⟨_, flow?_act_track hnone⟩

/-- Every flow of a session has the course of a flow to its peer. -/
theorem exists_course (policy : Policy) (millis : UInt64) (actions : List Action)
    (h : ((start policy millis).run actions).1.roster.flow? id = some flow) :
    ∃ born steps, ((Course.start policy id.peer born).run policy steps).flow = flow := by
  obtain ⟨born, steps, hrun, -⟩ := exists_life rfl actions (course?_of_flow? h)
  exact ⟨born, steps, congrArg Course.flow hrun⟩

/-- The rosters of sessions are sound. -/
theorem sound_run (policy : Policy) (millis : UInt64) (actions : List Action) :
    ((start policy millis).run actions).1.roster.Sound where
  exists_of_find? := exists_of_find?_run (by simp [start]) actions
  peer_eq := by
    intro id flow hflow
    obtain ⟨born, steps, rfl⟩ := exists_course policy millis actions hflow
    exact (Course.belongsTo_run policy id.peer born steps).1

/-- A flow that is tracked stays tracked while its peer is not untracked. -/
theorem find?_act_of_ne (h : session.roster.find? peer = some id) {action : Action}
    (hne : action ≠ .untrack peer) : (session.act action).1.roster.find? peer = some id := by
  rw [find?_act]
  split
  · split
    · next heq => rw [← heq, h]; rfl
    · exact h
  · rw [if_neg, h]
    rintro rfl
    exact hne rfl
  · exact h

/-- A tracked flow stays tracked until its peer is untracked. -/
theorem find?_run_of_not_mem (h : session.roster.find? peer = some id)
    {actions : List Action} (hactions : .untrack peer ∉ actions) :
    (session.run actions).1.roster.find? peer = some id := by
  induction actions generalizing session with
  | nil => exact h
  | cons action actions ih =>
    rw [List.mem_cons, not_or] at hactions
    exact ih (find?_act_of_ne h (Ne.symm hactions.1)) hactions.2

/-- A flow that is there but not tracked is never tracked again. -/
theorem find?_act_ne (hflow : session.roster.flow? id = some flow)
    (h : ∀ peer, session.roster.find? peer ≠ some id) (action : Action) (peer : Peer) :
    (session.act action).1.roster.find? peer ≠ some id := by
  intro hfind
  rcases find?_of_find?_act hfind with hfind | ⟨-, -, rfl⟩
  · exact h peer hfind
  · exact absurd hflow (by simp)

/-- No run tracks a flow again that is there but not tracked. -/
theorem find?_run_ne (hflow : session.roster.flow? id = some flow)
    (h : ∀ peer, session.roster.find? peer ≠ some id) (actions : List Action) (peer : Peer) :
    (session.run actions).1.roster.find? peer ≠ some id := by
  induction actions generalizing session flow with
  | nil => exact h peer
  | cons action actions ih =>
    obtain ⟨later, hlater⟩ := exists_flow?_act hflow action
    exact ih hlater (find?_act_ne hflow h action)

/-- A flow that is not tracked stays as it is while nothing is done to it. -/
theorem flow?_run_of_not_names (hflow : session.roster.flow? id = some flow)
    (h : ∀ peer, session.roster.find? peer ≠ some id) {actions : List Action}
    (hactions : ∀ action ∈ actions, ¬ action.Names id) :
    (session.run actions).1.roster.flow? id = some flow := by
  induction actions generalizing session with
  | nil => exact hflow
  | cons action actions ih =>
    have hkept : (session.act action).1.roster.flow? id = some flow :=
      flow?_act_of_not_names hflow (hactions action List.mem_cons_self) fun _ => h _
    exact ih hkept (find?_act_ne hflow h action) fun other hmem =>
      hactions other (List.mem_cons_of_mem _ hmem)

/-- Tracking is told of a peer that was not tracked, and of nothing else. -/
theorem tracking_act (action : Action) :
    (session.act action).2.filter (fun event => !event.isJudgement) =
      match action with
      | .track peer => if session.roster.find? peer = none then [.tracking peer] else []
      | _ => [] := by
  have hjudged (ids : List FlowId) :
      (session.roster.judgeEach session.clock.now ids).2.filter
        (fun event => !event.isJudgement) = [] := by
    refine List.filter_eq_nil_iff.mpr fun event hevent => ?_
    simp [Roster.isJudgement_of_mem_judgeEach ids hevent]
  cases action with
  | track peer =>
    cases h : session.roster.find? peer with
    | some id => simp [act, withRoster, Roster.track_of_find? h, h]
    | none => simp [act, withRoster, Roster.track_of_find?_eq_none h, h, Event.isJudgement]
  | judge id => rw [act_judge]; exact hjudged [id]
  | judgeEach ids => exact hjudged ids
  | judgeAll => exact hjudged _
  | _ => rfl

end FlowControl.Session
