import FlowControl.Proofs.Session.Tracking
import Mathlib.Data.List.Induction

/-!
# Peers do not influence each other

One roster, one policy and one clock serve all peers, and what is tracked is judged all at once.
Still, what becomes of a peer depends only on what is done to this peer. To state it, actions are
taken apart into single steps, and the share of a peer in a run is what is left of its steps when
those that have to do with other peers alone are left out. Two runs in which a peer has the same
share cannot be told apart by this peer at any point.
-/

namespace FlowControl

/-- What is told about a peer. -/
def Peer.told (peer : Peer) (events : List Event) : List Event :=
  events.filter fun event => event.peer = peer

/-- What is told about a peer in two parts is told in the first one and then in the second. -/
@[simp] theorem Peer.told_append (peer : Peer) (first second : List Event) :
    peer.told (first ++ second) = peer.told first ++ peer.told second := by
  rw [told, told, told, List.filter_append]

/-- Judging a flow tells of its peer alone. -/
theorem Policy.peer_of_mem_judge {policy : Policy} {now : UInt64} {flow : Flow} {event : Event}
    (h : event ∈ (policy.judge now flow).2) : event.peer = flow.peer := by
  unfold judge at h
  split at h
  · rcases List.mem_cons.mp h with rfl | hturn
    · rfl
    · unfold Flow.transition at hturn
      split at hturn <;> simp_all [Event.peer]
  · cases h

namespace Roster

variable {roster : Roster} {peer other : Peer} {id : FlowId} {now : UInt64}

/-- Judging a flow leaves the flows to other peers as they are. -/
theorem flowsTo_judge_of_ne (h : id.peer ≠ peer) :
    (roster.judge now id).1.flowsTo peer = roster.flowsTo peer := by
  unfold judge
  split
  · rfl
  · exact flowsTo_mapPeer_of_ne h _

end Roster

namespace Session

/-- An action in single steps: flows that are judged together are judged one after the other. -/
def parts (session : Session) : Action → List Action
  | .judgeEach flows => flows.map .judge
  | .judgeAll => session.roster.trackedIds.map .judge
  | action => [action]

/-- A list of actions in single steps. -/
def inParts (session : Session) : List Action → List Action
  | [] => []
  | action :: actions => session.parts action ++ (session.act action).1.inParts actions

namespace Action

/-- Whether an action is a single step. -/
def IsSingle : Action → Prop
  | .judgeEach _ => False
  | .judgeAll => False
  | _ => True

/-- Whether a single step has to do with a peer. The moves of the clock have to do with every
peer, and what is done to a flow has to do with the peer of the flow. -/
def Concerns (peer : Peer) : Action → Prop
  | .move _ => True
  | .openFlow other => other = peer
  | .track other => other = peer
  | .untrack other => other = peer
  | .record flow _ _ => flow.peer = peer
  | .resetMeter flow _ => flow.peer = peer
  | .judge flow => flow.peer = peer
  | .judgeEach flows => ∃ flow ∈ flows, flow.peer = peer
  | .judgeAll => True

instance (peer : Peer) : DecidablePred (Concerns peer) := fun action => by
  cases action <;> unfold Concerns <;> infer_instance

end Action

/-- The share of a peer in single steps: those that have to do with it. -/
def shareOf (peer : Peer) (steps : List Action) : List Action :=
  steps.filter fun step => step.Concerns peer

/-- Two outcomes that are the same to a peer: the clock, the flows to the peer with all that they
hold, which of them is tracked, and what was told about the peer. -/
structure SameTo (peer : Peer) (first second : Session × List Event) : Prop where
  clock : first.1.clock = second.1.clock
  flows : first.1.roster.flowsTo peer = second.1.roster.flowsTo peer
  told : peer.told first.2 = peer.told second.2

variable {session other : Session} {peer : Peer} {action : Action}

/-- A run of two parts tells what the first part tells and then what the second does. -/
theorem run_append_snd (first second : List Action) :
    (session.run (first ++ second)).2 =
      (session.run first).2 ++ ((session.run first).1.run second).2 := by
  induction first generalizing session with
  | nil => rfl
  | cons action actions ih =>
    rw [List.cons_append, run_cons, run_cons, ih, List.append_assoc]

/-- To judge flows together is to judge them one after the other. -/
theorem run_map_judge (ids : List FlowId) :
    session.run (ids.map .judge) =
      session.withRoster (session.roster.judgeEach session.clock.now ids) := by
  induction ids generalizing session with
  | nil => rfl
  | cons id ids ih =>
    rw [List.map_cons, run_cons, ih]
    rfl

/-- The single steps of an action do what the action does. -/
theorem run_parts (action : Action) : session.run (session.parts action) = session.act action := by
  have hone (action : Action) : session.run [action] = session.act action := by
    rw [run_cons, run_nil, List.append_nil]
  cases action with
  | judgeEach flows => exact run_map_judge flows
  | judgeAll => exact run_map_judge _
  | _ => exact hone _

/-- The single steps of a list of actions do what the actions do. -/
theorem run_inParts (actions : List Action) :
    session.run (session.inParts actions) = session.run actions := by
  induction actions generalizing session with
  | nil => rfl
  | cons action actions ih =>
    ext1
    · rw [inParts, run_append, run_parts, ih]
      rfl
    · rw [inParts, run_append_snd, run_parts, ih]
      rfl

/-- The parts of an action are single steps. -/
theorem isSingle_of_mem_parts {step : Action} (h : step ∈ session.parts action) :
    step.IsSingle := by
  have hjudge {ids : List FlowId} (hmem : step ∈ ids.map Action.judge) : step.IsSingle := by
    obtain ⟨id, -, rfl⟩ := List.mem_map.mp hmem
    trivial
  cases action with
  | judgeEach flows => exact hjudge h
  | judgeAll => exact hjudge h
  | _ =>
    obtain rfl := List.mem_singleton.mp h
    trivial

/-- All steps of a list in single steps are single. -/
theorem isSingle_of_mem_inParts {actions : List Action} {step : Action}
    (h : step ∈ session.inParts actions) : step.IsSingle := by
  induction actions generalizing session with
  | nil => cases h
  | cons action actions ih =>
    rcases List.mem_append.mp h with hfirst | hrest
    · exact isSingle_of_mem_parts hfirst
    · exact ih hrest

/-- A step that has nothing to do with a peer leaves the clock and its flows as they are, and
nothing is told about the peer. -/
theorem act_of_not_concerns (hsound : session.roster.Sound) (hsingle : action.IsSingle)
    (h : ¬ action.Concerns peer) :
    (session.act action).1.clock = session.clock ∧
      (session.act action).1.roster.flowsTo peer = session.roster.flowsTo peer ∧
      peer.told (session.act action).2 = [] := by
  cases action with
  | move _ => exact absurd trivial h
  | openFlow _ => exact ⟨rfl, Roster.flowsTo_mapPeer_of_ne h _, rfl⟩
  | untrack _ => exact ⟨rfl, Roster.flowsTo_mapPeer_of_ne h _, rfl⟩
  | record _ _ _ => exact ⟨rfl, Roster.flowsTo_mapPeer_of_ne h _, rfl⟩
  | resetMeter _ _ => exact ⟨rfl, Roster.flowsTo_mapPeer_of_ne h _, rfl⟩
  | track tracked =>
    refine ⟨rfl, Roster.flowsTo_track_of_ne h, ?_⟩
    cases hfind : session.roster.find? tracked with
    | some _ => simp [act, withRoster, Roster.track_of_find? hfind, Peer.told]
    | none =>
      have hne : tracked ≠ peer := h
      simp [act, withRoster, Roster.track_of_find?_eq_none hfind, Peer.told, Event.peer, hne]
  | judge id =>
    refine ⟨rfl, Roster.flowsTo_judge_of_ne h, List.filter_eq_nil_iff.mpr fun event hevent => ?_⟩
    have htold : event ∈ (session.roster.judge session.clock.now id).2 := hevent
    rw [Roster.judge_snd] at htold
    cases hflow : session.roster.flow? id with
    | none => simp [hflow] at htold
    | some flow =>
      have hpeer : event.peer = flow.peer :=
        Policy.peer_of_mem_judge (by simpa [hflow] using htold)
      rw [decide_eq_true_eq, hpeer, hsound.peer_eq id flow hflow]
      exact h
  | judgeEach _ => exact hsingle.elim
  | judgeAll => exact hsingle.elim

/-- A step that has to do with a peer does the same to it wherever the policy, the clock and the
flows to the peer are the same. -/
theorem act_congr (hpolicy : session.roster.policy = other.roster.policy)
    (hclock : session.clock = other.clock)
    (hflows : session.roster.flowsTo peer = other.roster.flowsTo peer)
    (hsingle : action.IsSingle) (h : action.Concerns peer) :
    (session.act action).1.clock = (other.act action).1.clock ∧
      (session.act action).1.roster.flowsTo peer = (other.act action).1.roster.flowsTo peer ∧
      (session.act action).2 = (other.act action).2 := by
  have hmap (f : PeerFlows → PeerFlows) : (session.roster.mapPeer peer f).flowsTo peer =
      (other.roster.mapPeer peer f).flowsTo peer := by
    rw [Roster.flowsTo_mapPeer_self, Roster.flowsTo_mapPeer_self, hflows]
  cases action with
  | move move => exact ⟨congrArg (·.move move) hclock, hflows, rfl⟩
  | openFlow q =>
    obtain rfl : q = peer := h
    refine ⟨hclock, ?_, rfl⟩
    simp only [act, withRoster, Roster.openFlow, hpolicy]
    exact hmap _
  | untrack q =>
    obtain rfl : q = peer := h
    exact ⟨hclock, hmap _, rfl⟩
  | record id direction events =>
    obtain rfl : id.peer = peer := h
    exact ⟨hclock, hmap _, rfl⟩
  | resetMeter id direction =>
    obtain rfl : id.peer = peer := h
    exact ⟨hclock, hmap _, rfl⟩
  | track q =>
    obtain rfl : q = peer := h
    have hfind : session.roster.find? q = other.roster.find? q := by
      rw [Roster.find?, Roster.find?, hflows]
    cases hother : other.roster.find? q with
    | some id =>
      rw [hother] at hfind
      simp [act, withRoster, Roster.track_of_find? hfind, Roster.track_of_find? hother, hclock,
        hflows]
    | none =>
      rw [hother] at hfind
      simp [act, withRoster, Roster.track_of_find?_eq_none hfind,
        Roster.track_of_find?_eq_none hother, hclock, hflows, hpolicy,
        Roster.flowsTo_mapPeer_self, Roster.openFlow, Roster.nextId]
  | judge id =>
    obtain rfl : id.peer = peer := h
    have hflow : session.roster.flow? id = other.roster.flow? id := by
      rw [Roster.flow?, Roster.flow?, hflows]
    simp only [act, withRoster, Roster.judge, hflow, hpolicy, hclock]
    cases other.roster.flow? id with
    | none => exact ⟨trivial, hflows, rfl⟩
    | some flow => exact ⟨trivial, hmap _, rfl⟩
  | judgeEach _ => exact hsingle.elim
  | judgeAll => exact hsingle.elim

/-- The last action of a run acts on the session that the others leave. -/
theorem run_concat (actions : List Action) (action : Action) :
    session.run (actions ++ [action]) =
      (((session.run actions).1.act action).1,
        (session.run actions).2 ++ ((session.run actions).1.act action).2) := by
  ext1
  · rw [run_append]
    rfl
  · rw [run_append_snd, run_cons, run_nil, List.append_nil]

/-- To a peer, a run in single steps is the run of its share alone. -/
theorem sameTo_run_shareOf (policy : Policy) (millis : UInt64) (peer : Peer)
    {steps : List Action} (h : ∀ step ∈ steps, step.IsSingle) :
    SameTo peer ((start policy millis).run steps)
      ((start policy millis).run (shareOf peer steps)) := by
  induction steps using List.reverseRecOn with
  | nil => exact ⟨rfl, rfl, rfl⟩
  | append_singleton steps step ih =>
    have hbefore := ih fun earlier hmem => h earlier (List.mem_append_left _ hmem)
    have hsingle : step.IsSingle := h step (by simp)
    have hpolicy (actions : List Action) : ((start policy millis).run actions).1.roster.policy =
        policy := run_policy actions
    rw [shareOf, List.filter_append, ← shareOf, run_concat]
    by_cases hconcerns : step.Concerns peer
    · obtain ⟨hclock, hflows, htold⟩ := act_congr ((hpolicy _).trans (hpolicy _).symm)
        hbefore.clock hbefore.flows hsingle hconcerns
      rw [List.filter_singleton, decide_eq_true hconcerns, cond_true, run_concat]
      refine ⟨hclock, hflows, ?_⟩
      rw [Peer.told_append, Peer.told_append, hbefore.told, htold]
    · obtain ⟨hclock, hflows, htold⟩ :=
        act_of_not_concerns (sound_run policy millis steps) hsingle hconcerns
      rw [List.filter_singleton, decide_eq_false hconcerns, cond_false, List.append_nil]
      refine ⟨hclock.trans hbefore.clock, hflows.trans hbefore.flows, ?_⟩
      rw [Peer.told_append, htold, List.append_nil, hbefore.told]

/-- To be the same to a peer is symmetric. -/
theorem SameTo.symm {first second : Session × List Event} (h : SameTo peer first second) :
    SameTo peer second first :=
  ⟨h.clock.symm, h.flows.symm, h.told.symm⟩

/-- To be the same to a peer is transitive. -/
theorem SameTo.trans {first second third : Session × List Event} (h : SameTo peer first second)
    (h' : SameTo peer second third) : SameTo peer first third :=
  ⟨h.clock.trans h'.clock, h.flows.trans h'.flows, h.told.trans h'.told⟩

/-- Runs in single steps in which a peer has the same share are the same to it. -/
theorem sameTo_of_shareOf_eq (policy : Policy) (millis : UInt64) {first second : List Action}
    (hfirst : ∀ step ∈ first, step.IsSingle) (hsecond : ∀ step ∈ second, step.IsSingle)
    (h : shareOf peer first = shareOf peer second) :
    SameTo peer ((start policy millis).run first) ((start policy millis).run second) := by
  have hshare := sameTo_run_shareOf policy millis peer hfirst
  rw [h] at hshare
  exact hshare.trans (sameTo_run_shareOf policy millis peer hsecond).symm

/-- **Peers do not influence each other.** Take two sessions with the same policy and the same
clock, and in each of them any list of actions, such that the single steps that have to do with
one peer are the same in both: the moves of the clock, and whatever is opened, tracked, untracked,
recorded, reset or judged of this peer, be it judged by itself or together with others. Then the
two are the same to this peer: the clock, every flow to the peer down to the last bit, which of
them is tracked, and all that was told about it. So it is not only at the end, but also at every
point in between that each of the two comes through: to each such point of the one session
corresponds one of the other, and the two are the same to the peer wherever they correspond. -/
theorem peers_isolated (policy : Policy) (millis : UInt64) (peer : Peer)
    (first second : List Action)
    (h : shareOf peer ((start policy millis).inParts first) =
      shareOf peer ((start policy millis).inParts second)) :
    let session := start policy millis
    SameTo peer (session.run first) (session.run second) ∧
    session.run (session.inParts first) = session.run first ∧
    session.run (session.inParts second) = session.run second ∧
    ∀ point, point <+: session.inParts first →
      (∃ point', point' <+: session.inParts second ∧ shareOf peer point = shareOf peer point') ∧
      ∀ point', point' <+: session.inParts second → shareOf peer point = shareOf peer point' →
        SameTo peer (session.run point) (session.run point') := by
  intro session
  have hsingle (actions : List Action) {point : List Action}
      (hpoint : point <+: session.inParts actions) : ∀ step ∈ point, step.IsSingle :=
    fun _ hmem => isSingle_of_mem_inParts (hpoint.subset hmem)
  refine ⟨?_, run_inParts first, run_inParts second, fun point hpoint => ⟨?_, ?_⟩⟩
  · rw [← run_inParts first, ← run_inParts second]
    exact sameTo_of_shareOf_eq policy millis (hsingle first (List.prefix_refl _))
      (hsingle second (List.prefix_refl _)) h
  · -- what the peer has had at this point is the front of its share, in either session
    have hfront : shareOf peer point <+: shareOf peer (session.inParts second) :=
      h ▸ hpoint.filter _
    exact List.prefix_filter_iff.mp hfront
  · exact fun point' hpoint' =>
      sameTo_of_shareOf_eq policy millis (hsingle first hpoint) (hsingle second hpoint')

/-- A peer that acknowledges nothing is found overloaded in the same way, whether it is judged
together with a busy peer or next to a flow that was never opened. -/
theorem peers_isolated_busy_neighbour :
    let session := start ⟨⟨0.9, 0.1, 10⟩, .ofMillis 1000, by decide⟩ 0
    let window : Action := .move (.advance (.ofMillis 1000))
    let first : List Action :=
      [.track "busy", .track "peer", .record ⟨"busy", 0⟩ .incoming 7,
        .record ⟨"peer", 0⟩ .outgoing 10, window, .judgeAll, .untrack "busy"]
    let second : List Action :=
      [.track "peer", .record ⟨"peer", 0⟩ .outgoing 10, window,
        .judgeEach [⟨"other", 3⟩, ⟨"peer", 0⟩]]
    shareOf "peer" (session.inParts first) = shareOf "peer" (session.inParts second) ∧
      SameTo "peer" (session.run first) (session.run second) ∧
      (Peer.told "peer" (session.run first).2).map Event.message =
        ["tracking back-pressure for new peer", "closed back-pressure window",
          "peer overloaded"] := by
  intro session window first second
  have hshare : shareOf "peer" (session.inParts first) =
      shareOf "peer" (session.inParts second) := by decide +kernel
  exact ⟨hshare, (peers_isolated _ 0 "peer" first second hshare).1, by decide +kernel⟩

end Session

end FlowControl
