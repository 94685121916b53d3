import FlowControl.Roster
import Mathlib.Tactic.Common

/-!
# What the operations of a roster do

To its users a roster is two maps: which flow of each peer is tracked, and the flows that were
ever opened. Each operation is described by what it does to the one and to the other, and later
modules use these descriptions alone.
-/

namespace FlowControl

namespace Roster

variable {roster : Roster} {peer other : Peer} {id : FlowId} {now : UInt64}

/-- What is changed for a peer is changed for no other. -/
theorem flowsTo_mapPeer (f : PeerFlows → PeerFlows) :
    (roster.mapPeer peer f).flowsTo other =
      if other = peer then f (roster.flowsTo peer) else roster.flowsTo other := by
  unfold flowsTo mapPeer
  rw [Dictionary.get?_insert]
  split <;> rfl

/-- To change the flows to one peer leaves those to another one. -/
theorem flowsTo_mapPeer_of_ne (h : other ≠ peer) (f : PeerFlows → PeerFlows) :
    (roster.mapPeer other f).flowsTo peer = roster.flowsTo peer :=
  (flowsTo_mapPeer f).trans (if_neg (Ne.symm h))

/-- The flows to a peer are what they were changed to. -/
theorem flowsTo_mapPeer_self (f : PeerFlows → PeerFlows) :
    (roster.mapPeer peer f).flowsTo peer = f (roster.flowsTo peer) :=
  (flowsTo_mapPeer f).trans (if_pos rfl)

/-- A change for a peer that leaves alone which flow is tracked. -/
theorem find?_mapPeer (f : PeerFlows → PeerFlows) :
    (roster.mapPeer peer f).find? other =
      if other = peer then (f (roster.flowsTo peer)).tracked.map fun number => ⟨peer, number⟩
      else roster.find? other := by
  unfold find?
  rw [flowsTo_mapPeer]
  split
  · next h => rw [h]
  · rfl

/-- A flow to the peer is looked up among the changed flows, and any other one where it was. -/
theorem flow?_mapPeer (f : PeerFlows → PeerFlows) :
    (roster.mapPeer peer f).flow? id =
      if id.peer = peer then (f (roster.flowsTo peer)).opened[id.number]? else roster.flow? id := by
  unfold flow?
  rw [flowsTo_mapPeer]
  split <;> rfl

/-- The tracked flow to a peer is a flow to that peer. -/
theorem peer_of_find? (h : roster.find? peer = some id) : id.peer = peer := by
  obtain ⟨number, _, rfl⟩ := Option.map_eq_some_iff.mp h
  rfl

/-- At the start no flow is tracked. -/
@[simp] theorem find?_start (policy : Policy) : (start policy).find? peer = none := rfl

/-- At the start there is no flow. -/
@[simp] theorem flow?_start (policy : Policy) : (start policy).flow? id = none := rfl

/-- The flow to be opened next is not there yet. -/
@[simp] theorem flow?_nextId : roster.flow? (roster.nextId peer) = none :=
  List.getElem?_eq_none (Nat.le_refl _)

/-- To open a flow keeps the policy. -/
@[simp] theorem openFlow_policy : (roster.openFlow peer).policy = roster.policy := rfl

/-- To open a flow does not track it. -/
@[simp] theorem find?_openFlow : (roster.openFlow peer).find? other = roster.find? other := by
  rw [openFlow, find?_mapPeer]
  split
  · next h => rw [h]; rfl
  · rfl

/-- Opening a flow gives a new one, and the flows before stay as they are. -/
theorem flow?_openFlow : (roster.openFlow peer).flow? id =
    if id = roster.nextId peer then some (roster.policy.newFlow peer) else roster.flow? id := by
  obtain ⟨idPeer, number⟩ := id
  rw [openFlow, flow?_mapPeer]
  simp only [nextId, FlowId.mk.injEq, flow?]
  by_cases hpeer : idPeer = peer
  · subst hpeer
    by_cases hnumber : number = (roster.flowsTo idPeer).opened.length
    · simp [hnumber]
    · simp only [hnumber, and_false, if_true, if_false]
      rcases Nat.lt_or_gt_of_ne hnumber with hlt | hgt
      · exact List.getElem?_append_left hlt
      · rw [List.getElem?_eq_none (by simp; omega), List.getElem?_eq_none (Nat.le_of_lt hgt)]
  · simp [hpeer]

/-- A peer that is tracked already stays tracked by its flow, and nothing is told. -/
theorem track_of_find? (h : roster.find? peer = some id) : roster.track peer = (roster, []) := by
  rw [track, h]

/-- A peer that is not tracked gets the flow that is opened next. -/
theorem track_of_find?_eq_none (h : roster.find? peer = none) :
    roster.track peer =
      ((roster.openFlow peer).mapPeer peer fun flows =>
        { flows with tracked := some (roster.nextId peer).number }, [.tracking peer]) := by
  rw [track, h]

/-- To track a peer keeps the policy. -/
@[simp] theorem track_policy : (roster.track peer).1.policy = roster.policy := by
  unfold track
  split <;> rfl

/-- A peer that is tracked keeps its flow, and one that is not gets the next one. -/
theorem find?_track : (roster.track peer).1.find? other =
    if other = peer then some ((roster.find? peer).getD (roster.nextId peer))
    else roster.find? other := by
  cases h : roster.find? peer with
  | some id =>
    rw [track_of_find? h]
    split
    · next heq => rw [heq, h]; rfl
    · rfl
  | none =>
    rw [track_of_find?_eq_none h, find?_mapPeer]
    split
    · rfl
    · exact find?_openFlow

/-- Only a peer that is not tracked gets a new flow. -/
theorem flow?_track : (roster.track peer).1.flow? id =
    if roster.find? peer = none ∧ id = roster.nextId peer then some (roster.policy.newFlow peer)
    else roster.flow? id := by
  cases h : roster.find? peer with
  | some _ => simp [track_of_find? h]
  | none =>
    have hsame (tracked : Option Nat) (roster : Roster) : (roster.mapPeer peer fun flows =>
        { flows with tracked := tracked }).flow? id = roster.flow? id := by
      rw [flow?_mapPeer]
      split
      · next heq => rw [flow?, heq]
      · rfl
    rw [track_of_find?_eq_none h]
    simp only [hsame, flow?_openFlow, true_and]

/-- Tracking a peer leaves the flows to other peers as they are. -/
theorem flowsTo_track_of_ne (h : other ≠ peer) :
    (roster.track other).1.flowsTo peer = roster.flowsTo peer := by
  cases hfind : roster.find? other with
  | some id => rw [track_of_find? hfind]
  | none =>
    rw [track_of_find?_eq_none hfind, flowsTo_mapPeer_of_ne h, openFlow, flowsTo_mapPeer_of_ne h]

/-- To untrack a peer keeps the policy. -/
@[simp] theorem untrack_policy : (roster.untrack peer).policy = roster.policy := rfl

/-- A peer that was untracked has no tracked flow, and the others have theirs. -/
theorem find?_untrack : (roster.untrack peer).find? other =
    if other = peer then none else roster.find? other := by
  rw [untrack, find?_mapPeer]
  rfl

/-- A flow that is tracked no longer is still there. -/
@[simp] theorem flow?_untrack : (roster.untrack peer).flow? id = roster.flow? id := by
  rw [untrack, flow?_mapPeer]
  split
  · next h => rw [flow?, h]
  · rfl

/-- To change a flow keeps the policy. -/
@[simp] theorem modify_policy (f : Flow → Flow) : (roster.modify id f).policy = roster.policy := rfl

/-- To change a flow does not change which ones are tracked. -/
@[simp] theorem find?_modify (f : Flow → Flow) :
    (roster.modify id f).find? peer = roster.find? peer := by
  rw [modify, find?_mapPeer]
  split
  · next h => rw [h]; rfl
  · rfl

/-- Changing a flow changes no other. -/
theorem flow?_modify {id other : FlowId} (f : Flow → Flow) : (roster.modify id f).flow? other =
    if other = id then (roster.flow? id).map f else roster.flow? other := by
  obtain ⟨idPeer, number⟩ := id
  obtain ⟨otherPeer, otherNumber⟩ := other
  rw [modify, flow?_mapPeer]
  simp only [FlowId.mk.injEq, flow?, PeerFlows.modify, List.getElem?_modify]
  by_cases hpeer : otherPeer = idPeer
  · subst hpeer
    by_cases hnumber : otherNumber = number
    · simp [hnumber]
    · simp [hnumber, Ne.symm hnumber]
  · simp [hpeer]

/-- To judge a flow keeps the policy. -/
@[simp] theorem judge_policy : (roster.judge now id).1.policy = roster.policy := by
  unfold judge
  split <;> rfl

/-- To judge a flow does not change which ones are tracked. -/
@[simp] theorem find?_judge : (roster.judge now id).1.find? peer = roster.find? peer := by
  unfold judge
  split
  · rfl
  · exact find?_modify _

/-- Judging a flow judges that flow and no other. -/
theorem flow?_judge {id other : FlowId} : (roster.judge now id).1.flow? other =
    if other = id then (roster.flow? id).map fun flow => (roster.policy.judge now flow).1
    else roster.flow? other := by
  unfold judge
  split
  · next h =>
    split
    · next heq => rw [heq, h]; rfl
    · rfl
  · next flow h => rw [flow?_modify, h]; rfl

/-- Judging a flow that is not there tells nothing. -/
theorem judge_snd : (roster.judge now id).2 =
    ((roster.flow? id).map fun flow => (roster.policy.judge now flow).2).getD [] := by
  unfold judge
  split <;> simp [*]

/-- To judge several flows keeps the policy. -/
@[simp] theorem judgeEach_policy (ids : List FlowId) :
    (roster.judgeEach now ids).1.policy = roster.policy := by
  induction ids generalizing roster with
  | nil => rfl
  | cons id ids ih => rw [judgeEach]; exact ih.trans judge_policy

/-- To judge several flows does not change which ones are tracked. -/
@[simp] theorem find?_judgeEach (ids : List FlowId) :
    (roster.judgeEach now ids).1.find? peer = roster.find? peer := by
  induction ids generalizing roster with
  | nil => rfl
  | cons id ids ih => rw [judgeEach]; exact ih.trans find?_judge

/-- The tracked flows are those that are found by their peers. -/
theorem mem_trackedIds : id ∈ roster.trackedIds ↔ roster.find? id.peer = some id := by
  simp only [trackedIds, List.mem_filterMap, Prod.exists, Dictionary.mem_entries_iff]
  constructor
  · rintro ⟨peer, flows, hget, htracked⟩
    obtain ⟨number, hnumber, rfl⟩ := Option.map_eq_some_iff.mp htracked
    rwa [find?, flowsTo, hget]
  · intro hfind
    rw [find?, flowsTo] at hfind
    cases hget : roster.peers.get? id.peer with
    | none =>
      rw [hget] at hfind
      cases hfind
    | some flows =>
      rw [hget] at hfind
      exact ⟨id.peer, flows, hget, hfind⟩

/-- The tracked flows stand in the order of their peers, one for each. -/
theorem trackedIds_ascending : roster.trackedIds.Pairwise fun a b => a.peer < b.peer := by
  have hkeys : roster.peers.entries.Pairwise fun a b => a.1 < b.1 :=
    List.pairwise_map.mp roster.peers.ascending
  refine hkeys.filterMap _ ?_
  rintro ⟨peer, flows⟩ ⟨peer', flows'⟩ hlt id hid id' hid'
  obtain ⟨_, _, rfl⟩ := Option.map_eq_some_iff.mp hid
  obtain ⟨_, _, rfl⟩ := Option.map_eq_some_iff.mp hid'
  exact hlt

end Roster

end FlowControl
