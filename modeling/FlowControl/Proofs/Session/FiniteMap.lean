import FlowControl.Proofs.Session.Tracking

/-!
# Sessions as finite maps

To its users a session is a finite map from peers to flows. What can be done to the map and to its
flows, and what can be seen of them, is said here without the dictionary that keeps them, for
every session whatever has happened in it.
-/

namespace FlowControl.Session

open Binary64

/-- The tracked flows are a finite map from peers to flows, and the actions work on it as they
should. -/
structure ActsOnMap (session : Session) : Prop where
  /-- Tracking a peer puts the next flow under it unless there is one, untracking it takes away
  what is there, and nothing else changes the map. -/
  find?_act : ∀ action peer, (session.act action).1.roster.find? peer =
    match action with
    | .track other =>
      if peer = other then some ((session.roster.find? other).getD (session.roster.nextId other))
      else session.roster.find? peer
    | .untrack other => if peer = other then none else session.roster.find? peer
    | _ => session.roster.find? peer
  /-- Under a peer there is a flow to that peer. -/
  found : ∀ peer id, session.roster.find? peer = some id →
    ∃ flow, session.roster.flow? id = some flow ∧ flow.peer = peer ∧ id.peer = peer
  /-- The very same flow stays under its peer until the peer is untracked. -/
  stays : ∀ peer id more, session.roster.find? peer = some id → .untrack peer ∉ more →
    (session.run more).1.roster.find? peer = some id
  /-- Tracking is told exactly when a peer was not tracked. -/
  tracking : ∀ action, (session.act action).2.filter (fun event => !event.isJudgement) =
    match action with
    | .track peer => if session.roster.find? peer = none then [.tracking peer] else []
    | _ => []
  /-- A peer that was not tracked gets a flow that was not there before, without traffic, without
  a limit, not overloaded and never judged. -/
  created : ∀ peer, session.roster.find? peer = none →
    session.roster.flow? (session.roster.nextId peer) = none ∧
    ∃ flow, (session.act (.track peer)).1.roster.flow? (session.roster.nextId peer) = some flow ∧
      flow.peer = peer ∧ flow.incoming.count = 0 ∧ flow.outgoing.count = 0 ∧
      flow.rate = unbounded ∧ flow.overloaded = false ∧ flow.lastDecision = 0 ∧
      flow.windowsClosed = 0
  /-- No flow comes to be otherwise than by being opened. -/
  opens : ∀ action id, session.roster.flow? id = none →
    (session.act action).1.roster.flow? id ≠ none → session.Opens id action
  /-- Traffic is counted by the flow that is named, whether it is tracked or not. -/
  recorded : ∀ id direction events flow, session.roster.flow? id = some flow →
    (session.act (.record id direction events)).1.roster.flow? id =
      some (flow.record direction events)
  /-- A flow stays as it is unless it is named, or it is tracked and all that are tracked are
  judged. -/
  kept : ∀ action id flow, session.roster.flow? id = some flow → ¬ action.Names id →
    (action = .judgeAll → session.roster.find? id.peer ≠ some id) →
    (session.act action).1.roster.flow? id = some flow
  /-- A flow whose peer is untracked is never found again, and it keeps what it holds as long as
  it is not named. -/
  untracked : ∀ peer id flow more, session.roster.find? peer = some id →
    session.roster.flow? id = some flow →
    let after := ((session.act (.untrack peer)).1.run more).1
    (∀ other, after.roster.find? other ≠ some id) ∧
      ((∀ action ∈ more, ¬ action.Names id) → after.roster.flow? id = some flow)
  /-- To judge what is tracked, in any order, is to judge each tracked flow and no other: each
  becomes and tells what it would if it were judged alone. -/
  judged : ∀ (action : Action) (order : List FlowId), order.Perm session.roster.trackedIds →
    action = .judgeAll ∨ action = .judgeEach order →
    (session.judgements action).map Prod.snd = (session.act action).2 ∧
    ∀ id, (session.act action).1.roster.flow? id =
        (if session.roster.find? id.peer = some id then
          (session.act (.judge id)).1.roster.flow? id
        else session.roster.flow? id) ∧
      id.told (session.judgements action) =
        if session.roster.find? id.peer = some id then (session.act (.judge id)).2 else []

/-- What can be seen of the map is what is in it, in the order of the bytes of the names. -/
structure ShowsMap (roster : Roster) : Prop where
  /-- The size is the number of tracked peers. -/
  size : ∃ peers : Finset Peer, (∀ peer, peer ∈ peers ↔ roster.find? peer ≠ none) ∧
    peers.card = roster.size
  size_eq_zero_iff : roster.size = 0 ↔ ∀ peer, roster.find? peer = none
  /-- The overloaded peers are the tracked ones whose flow is overloaded. -/
  mem_overloadedPeers : ∀ peer, peer ∈ roster.overloadedPeers ↔
    ∃ id flow, roster.find? peer = some id ∧ roster.flow? id = some flow ∧
      flow.overloaded = true
  overloadedPeers_ascending : (roster.overloadedPeers.map Text.utf8).Pairwise (· < ·)
  /-- Whoever collects the overloaded peers in another order and sorts them gets this list. -/
  overloadedPeers_eq : ∀ order : List Flow, order.Perm roster.trackedFlows →
    ((order.filter (·.overloaded)).map (·.peer)).mergeSort (fun a b => decide (a ≤ b)) =
      roster.overloadedPeers
  /-- The views are one for each tracked peer, and they show its flow as it is. A limit is shown
  unless it is infinite. -/
  mem_snapshots : ∀ observedAt view, view ∈ roster.snapshots observedAt ↔
    ∃ peer id flow limit, roster.find? peer = some id ∧ roster.flow? id = some flow ∧
      view = ⟨peer, limit, flow.overloaded, flow.lastDecision, flow.windowsClosed,
        flow.incoming.count, flow.outgoing.count, observedAt⟩ ∧
      ((limit = none ∧ flow.rate = unbounded) ∨
        (limit = some flow.rate ∧ flow.rate ≠ unbounded))
  snapshots_ascending : ∀ observedAt,
    ((roster.snapshots observedAt).map fun view => Text.utf8 view.peer).Pairwise (· < ·)
  /-- Whoever collects the views in another order and sorts them gets this list. -/
  snapshots_eq : ∀ (observedAt : Timestamp) (order : List Flow), order.Perm roster.trackedFlows →
    (order.map (·.snapshot observedAt)).mergeSort (fun a b => decide (a.peer ≤ b.peer)) =
      roster.snapshots observedAt

variable {session : Session} {policy : Policy} {millis : UInt64} {actions : List Action}

/-- The limit of a flow of a session is shown unless it is infinite. -/
theorem limit?_eq_iff {id : FlowId} {flow : Flow} {limit : Option Float}
    (h : ((start policy millis).run actions).1.roster.flow? id = some flow) :
    flow.limit? = limit ↔
      (limit = none ∧ flow.rate = unbounded) ∨
        (limit = some flow.rate ∧ flow.rate ≠ unbounded) := by
  obtain ⟨born, steps, rfl⟩ := exists_course policy millis actions h
  obtain ⟨s, hs⟩ := Course.exists_hasSize_run policy id.peer born steps
  generalize ((Course.start policy id.peer born).run policy steps).flow = flow at hs
  have hinfinite : flow.rate.isFinite = true ↔ flow.rate ≠ unbounded := by
    rw [hs.isFinite_iff]
    refine not_congr ⟨hs.eq_of_eq hasSize_unbounded, fun hrate => ?_⟩
    exact hs.unique (hrate ▸ hasSize_unbounded)
  unfold Flow.limit?
  by_cases hrate : flow.rate = unbounded
  · rw [if_neg (mt hinfinite.mp (not_not_intro hrate))]
    simp [hrate, eq_comm]
  · rw [if_pos (hinfinite.mpr hrate)]
    simp [hrate, eq_comm]

/-- To judge what is tracked, in any order, is to judge each tracked flow and no other. -/
theorem judgeEach_of_perm {order : List FlowId} (h : order.Perm session.roster.trackedIds)
    (id : FlowId) :
    (session.act (.judgeEach order)).1.roster.flow? id =
        (if session.roster.find? id.peer = some id then
          (session.act (.judge id)).1.roster.flow? id
        else session.roster.flow? id) ∧
      id.told (session.judgements (.judgeEach order)) =
        if session.roster.find? id.peer = some id then (session.act (.judge id)).2 else [] := by
  have hmem : id ∈ order ↔ session.roster.find? id.peer = some id :=
    h.mem_iff.trans Roster.mem_trackedIds
  have hnodup : order.Nodup := h.nodup_iff.mpr Roster.nodup_trackedIds
  have hjudged := session.roster.judgeEach_of_nodup session.clock.now hnodup id
  simp only [hmem] at hjudged
  exact hjudged

/-- The actions of every session work on the map. -/
theorem actsOnMap_run (policy : Policy) (millis : UInt64) (actions : List Action) :
    ((start policy millis).run actions).1.ActsOnMap := by
  have hsound := sound_run policy millis actions
  generalize ((start policy millis).run actions).1 = session at hsound
  constructor
  case find?_act => exact find?_act
  case found =>
    intro peer id hfind
    obtain ⟨flow, hflow⟩ := hsound.exists_of_find? peer id hfind
    have hpeer := Roster.peer_of_find? hfind
    exact ⟨flow, hflow, (hsound.peer_eq id flow hflow).trans hpeer, hpeer⟩
  case stays => exact fun peer id more hfind hmore => find?_run_of_not_mem hfind hmore
  case tracking => exact tracking_act
  case created =>
    intro peer hnone
    exact ⟨Roster.flow?_nextId, _, flow?_act_track hnone, rfl, rfl, rfl, rfl, rfl, rfl, rfl⟩
  case opens =>
    intro action id hnone hopened
    by_contra hopens
    exact hopened (flow?_act_of_not_opens hnone hopens)
  case recorded =>
    intro id direction events flow hflow
    exact Roster.flow?_modify _ |>.trans (by rw [if_pos rfl, hflow]; rfl)
  case kept => exact fun action id flow hflow => flow?_act_of_not_names hflow
  case untracked =>
    intro peer id flow more hfind hflow after
    have hflow' : (session.act (.untrack peer)).1.roster.flow? id = some flow :=
      Roster.flow?_untrack.trans hflow
    -- from here on no peer leads to the flow, and tracking only ever gives out new ones
    have hlost (other : Peer) : (session.act (.untrack peer)).1.roster.find? other ≠ some id := by
      rw [find?_act]
      dsimp only
      split_ifs with heq
      · exact Option.some_ne_none id |>.symm
      · intro hother
        exact heq ((Roster.peer_of_find? hother).symm.trans (Roster.peer_of_find? hfind))
    exact ⟨find?_run_ne hflow' hlost more, flow?_run_of_not_names hflow' hlost⟩
  case judged =>
    rintro action order horder (rfl | rfl)
    · exact ⟨Roster.judgements_map_snd _, judgeEach_of_perm (List.Perm.refl _)⟩
    · exact ⟨Roster.judgements_map_snd _, judgeEach_of_perm horder⟩

/-- The lists of every session show the map. -/
theorem showsMap_run (policy : Policy) (millis : UInt64) (actions : List Action) :
    ShowsMap ((start policy millis).run actions).1.roster := by
  have hsound := sound_run policy millis actions
  constructor
  case size => exact Roster.exists_card_eq_size
  case size_eq_zero_iff => exact Roster.size_eq_zero_iff
  case mem_overloadedPeers => exact fun peer => hsound.mem_overloadedPeers
  case overloadedPeers_ascending =>
    exact List.pairwise_map.mpr (hsound.overloadedPeers_ascending.imp Text.utf8_lt_iff.mpr)
  case overloadedPeers_eq => exact fun order => hsound.overloadedPeers_eq
  case mem_snapshots =>
    intro observedAt view
    have hpeer {peer : Peer} {id : FlowId} {flow : Flow}
        (hfind : ((start policy millis).run actions).1.roster.find? peer = some id)
        (hflow : ((start policy millis).run actions).1.roster.flow? id = some flow) :
        flow.peer = peer :=
      (hsound.peer_eq id flow hflow).trans (Roster.peer_of_find? hfind)
    rw [Roster.snapshots, List.mem_map]
    constructor
    · rintro ⟨flow, hmem, rfl⟩
      obtain ⟨peer, id, hfind, hflow⟩ := Roster.mem_trackedFlows.mp hmem
      obtain rfl := hpeer hfind hflow
      exact ⟨_, id, flow, _, hfind, hflow, rfl, (limit?_eq_iff hflow).mp rfl⟩
    · rintro ⟨peer, id, flow, limit, hfind, hflow, rfl, hlimit⟩
      obtain rfl := hpeer hfind hflow
      obtain rfl := (limit?_eq_iff hflow).mpr hlimit
      exact ⟨flow, Roster.mem_trackedFlows.mpr ⟨_, id, hfind, hflow⟩, rfl⟩
  case snapshots_ascending =>
    intro observedAt
    exact List.pairwise_map.mpr
      ((hsound.snapshots_ascending observedAt).imp Text.utf8_lt_iff.mpr)
  case snapshots_eq => exact fun observedAt order horder => hsound.snapshots_eq horder observedAt

/-- **A session is a finite map from peers to flows.** Whatever has happened in it, its actions
work on this map as they should, and its lists show what is in the map. -/
theorem refines_map (policy : Policy) (millis : UInt64) (actions : List Action) :
    ((start policy millis).run actions).1.ActsOnMap ∧
      ShowsMap ((start policy millis).run actions).1.roster :=
  ⟨actsOnMap_run policy millis actions, showsMap_run policy millis actions⟩

end FlowControl.Session
