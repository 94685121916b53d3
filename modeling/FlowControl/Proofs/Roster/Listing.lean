import FlowControl.Proofs.Roster.Basic
import FlowControl.Proofs.Text.Utf8
import Mathlib.Data.Finset.Card
import Mathlib.Data.List.Sort

/-!
# Lists of what is tracked

The lists that a roster gives of its tracked flows hold each of them once, in the order of the
peers. So whoever collects the tracked flows in any order, and sorts them by their peers, comes to
the same lists.
-/

namespace FlowControl.Roster

/-- Entries with different keys, collected in any order and sorted by their keys, stand in
ascending order. -/
theorem mergeSort_eq_of_perm {α : Type} (key : α → Peer) {order sorted : List α}
    (hperm : order.Perm sorted) (hsorted : sorted.Pairwise fun a b => key a < key b) :
    order.mergeSort (fun a b => decide (key a ≤ key b)) = sorted := by
  have hperm' := (List.mergeSort_perm order fun a b => decide (key a ≤ key b)).trans hperm
  have hpairwise : (order.mergeSort fun a b => decide (key a ≤ key b)).Pairwise
      fun a b => key a ≤ key b := by
    have h : (order.mergeSort fun a b => decide (key a ≤ key b)).Pairwise
        fun a b => decide (key a ≤ key b) = true := by
      apply List.pairwise_mergeSort
      · intro a b c hab hbc
        simpa using le_trans (of_decide_eq_true hab) (of_decide_eq_true hbc)
      · intro a b
        simpa using le_total (key a) (key b)
    simpa using h
  have hinj : ∀ a ∈ sorted, ∀ b ∈ sorted, key a = key b → a = b := by
    have hne : sorted.Pairwise fun a b => key a ≠ key b := hsorted.imp fun h => h.ne
    exact fun a ha b hb => List.inj_on_of_nodup_map (List.pairwise_map.mpr hne) ha hb
  refine hperm'.eq_of_pairwise ?_ hpairwise (hsorted.imp le_of_lt)
  intro a b ha hb hab hba
  exact hinj a (hperm'.subset ha) b hb (le_antisymm hab hba)

/-- What is tracked is there, and every flow is a flow to its peer. -/
structure Sound (roster : Roster) : Prop where
  exists_of_find? : ∀ peer id, roster.find? peer = some id → ∃ flow, roster.flow? id = some flow
  peer_eq : ∀ id flow, roster.flow? id = some flow → flow.peer = id.peer

variable {roster : Roster} {peer : Peer} {flow : Flow}

/-- The tracked flows are those that are found by some peer. -/
theorem mem_trackedFlows :
    flow ∈ roster.trackedFlows ↔
      ∃ peer id, roster.find? peer = some id ∧ roster.flow? id = some flow := by
  rw [trackedFlows, List.mem_filterMap]
  constructor
  · rintro ⟨id, hid, hflow⟩
    exact ⟨id.peer, id, mem_trackedIds.mp hid, hflow⟩
  · rintro ⟨peer, id, hfind, hflow⟩
    refine ⟨id, mem_trackedIds.mpr ?_, hflow⟩
    rwa [peer_of_find? hfind]

/-- No peer is tracked twice. -/
theorem nodup_trackedIds : roster.trackedIds.Nodup :=
  trackedIds_ascending.imp fun h heq => h.ne (congrArg FlowId.peer heq)

/-- The size of a roster is the number of tracked peers. -/
theorem exists_card_eq_size :
    ∃ peers : Finset Peer, (∀ peer, peer ∈ peers ↔ roster.find? peer ≠ none) ∧
      peers.card = roster.size := by
  have hnodup : (roster.trackedIds.map FlowId.peer).Nodup :=
    List.pairwise_map.mpr (trackedIds_ascending.imp fun h => h.ne)
  refine ⟨(roster.trackedIds.map FlowId.peer).toFinset, ?_, ?_⟩
  · intro peer
    rw [List.mem_toFinset, List.mem_map, Option.ne_none_iff_exists']
    constructor
    · rintro ⟨id, hid, rfl⟩
      exact ⟨id, mem_trackedIds.mp hid⟩
    · rintro ⟨id, hfind⟩
      have hpeer := peer_of_find? hfind
      exact ⟨id, mem_trackedIds.mpr (hpeer ▸ hfind), hpeer⟩
  · rw [List.toFinset_card_of_nodup hnodup, List.length_map, size]

/-- A roster is empty when nothing is found in it. -/
theorem size_eq_zero_iff : roster.size = 0 ↔ ∀ peer, roster.find? peer = none := by
  obtain ⟨peers, hpeers, hcard⟩ := roster.exists_card_eq_size
  rw [← hcard, Finset.card_eq_zero, Finset.eq_empty_iff_forall_notMem]
  simp only [hpeers, not_not]

namespace Sound

variable (h : roster.Sound)

include h

/-- The tracked flows stand in the order of their peers. -/
theorem trackedFlows_ascending : roster.trackedFlows.Pairwise fun a b => a.peer < b.peer := by
  refine trackedIds_ascending.filterMap _ ?_
  intro id id' hlt flow hflow flow' hflow'
  rwa [h.peer_eq id flow hflow, h.peer_eq id' flow' hflow']

/-- The overloaded peers are the tracked ones whose flow is overloaded. -/
theorem mem_overloadedPeers :
    peer ∈ roster.overloadedPeers ↔
      ∃ id flow, roster.find? peer = some id ∧ roster.flow? id = some flow ∧
        flow.overloaded = true := by
  simp only [overloadedPeers, List.mem_map, List.mem_filter, mem_trackedFlows]
  constructor
  · rintro ⟨flow, ⟨⟨found, id, hfind, hflow⟩, hoverloaded⟩, rfl⟩
    refine ⟨id, flow, ?_, hflow, hoverloaded⟩
    rwa [h.peer_eq id flow hflow, peer_of_find? hfind]
  · rintro ⟨id, flow, hfind, hflow, hoverloaded⟩
    refine ⟨flow, ⟨⟨peer, id, hfind, hflow⟩, hoverloaded⟩, ?_⟩
    rw [h.peer_eq id flow hflow, peer_of_find? hfind]

/-- The overloaded peers stand in the order of their names. -/
theorem overloadedPeers_ascending : roster.overloadedPeers.Pairwise (· < ·) :=
  List.pairwise_map.mpr (h.trackedFlows_ascending.filter _)

/-- The views stand in the order of their peers. -/
theorem snapshots_ascending (observedAt : Timestamp) :
    (roster.snapshots observedAt).Pairwise fun a b => a.peer < b.peer :=
  List.pairwise_map.mpr h.trackedFlows_ascending

/-- Whoever goes through the tracked flows in any order and sorts the overloaded peers comes to
the same list. -/
theorem overloadedPeers_eq {order : List Flow} (horder : order.Perm roster.trackedFlows) :
    ((order.filter (·.overloaded)).map (·.peer)).mergeSort (fun a b => decide (a ≤ b)) =
      roster.overloadedPeers :=
  mergeSort_eq_of_perm id ((horder.filter _).map _) h.overloadedPeers_ascending

/-- Whoever goes through the tracked flows in any order and sorts the views comes to the same
list. -/
theorem snapshots_eq {order : List Flow} (horder : order.Perm roster.trackedFlows)
    (observedAt : Timestamp) :
    (order.map (·.snapshot observedAt)).mergeSort (fun a b => decide (a.peer ≤ b.peer)) =
      roster.snapshots observedAt :=
  mergeSort_eq_of_perm Snapshot.peer (horder.map _) (h.snapshots_ascending observedAt)

end Sound

end FlowControl.Roster
