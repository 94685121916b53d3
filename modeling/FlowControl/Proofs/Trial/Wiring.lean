import FlowControl.Proofs.Roster.Listing
import FlowControl.Proofs.Session.Life
import FlowControl.Proofs.Trial.Moves

/-!
# The wiring of a trial

Each lane of a trial leads to a peer of its own, and it knows the one flow that is tracked for this
peer. A trial starts that way, and no move changes it. So the flows of a trial are those of its
lanes, a lane counts traffic on its own flow alone, and a check judges every flow.
-/

namespace FlowControl

namespace Trial

/-- Peers with different numbers have different names. -/
theorem peerName_injective : Function.Injective peerName := by
  intro i j h
  have hdigits : Nat.toDigits 10 i = Nat.toDigits 10 j := by
    have hchars := congrArg String.toList h
    simpa [peerName, Nat.toList_repr] using hchars
  have hread := congrArg (Nat.ofDigitChars 10 · 0) hdigits
  simpa [Nat.ofDigitChars_ten_toDigits] using hread

/-- The names of the first peers. -/
def peerNames (n : ℕ) : List Peer := (List.range n).map peerName

/-- The first peers are those with the numbers below theirs. -/
theorem mem_peerNames {peer : Peer} {n : ℕ} :
    peer ∈ peerNames n ↔ ∃ index < n, peer = peerName index := by
  simp [peerNames, eq_comm]

/-- No name occurs twice among the first peers. -/
theorem nodup_peerNames (n : ℕ) : (peerNames n).Nodup :=
  List.nodup_range.map peerName_injective

/-- The flow of the lane with a number. -/
def flowId (index : ℕ) : FlowId := ⟨peerName index, 0⟩

/-- The flow of a lane leads to the peer with its number. -/
@[simp] theorem flowId_peer (index : ℕ) : (flowId index).peer = peerName index := rfl

/-- Lanes with different numbers have different flows. -/
theorem flowId_injective : Function.Injective flowId := by
  intro i j h
  exact peerName_injective (congrArg FlowId.peer h)

/-- The lane with a number at the start of a trial. -/
def newLane (load : LoadSettings) (index : ℕ) (capacity : Float) : Lane :=
  Lane.start (peerName index) capacity (flowId index) load 0

/-- What is opened for the capacities from a number on. -/
structure Opened (load : LoadSettings) (index : ℕ) (capacities : List Float) (roster : Roster)
    (lanes : List Lane) (last : Roster) : Prop where
  lanes_eq : lanes = capacities.mapIdx fun i capacity => newLane load (index + i) capacity
  policy_eq : last.policy = roster.policy
  find?_eq : ∀ peer, last.find? peer =
    if ∃ i < capacities.length, peer = peerName (index + i) then some ⟨peer, 0⟩
    else roster.find? peer
  flow?_eq : ∀ id, last.flow? id =
    if ∃ i < capacities.length, id = flowId (index + i) then
      some (roster.policy.newFlow id.peer)
    else roster.flow? id

/-- Where nothing was opened to the peers from a number on, each of them gets its first flow. -/
theorem opened_openLanes (load : LoadSettings) {index : ℕ} {capacities : List Float}
    {roster : Roster} (hnew : ∀ i, index ≤ i → roster.flowsTo (peerName i) = .none) :
    Opened load index capacities roster (openLanes load index capacities roster).1
      (openLanes load index capacities roster).2 := by
  induction capacities generalizing index roster with
  | nil => exact ⟨rfl, rfl, fun _ => by simp [openLanes], fun _ => by simp [openLanes]⟩
  | cons capacity capacities ih =>
    have hnone := hnew index le_rfl
    have hfind : roster.find? (peerName index) = none := by rw [Roster.find?, hnone]; rfl
    have hnext : roster.nextId (peerName index) = flowId index := by
      rw [Roster.nextId, hnone]
      rfl
    have hrest (i : ℕ) (hi : index + 1 ≤ i) :
        (roster.track (peerName index)).1.flowsTo (peerName i) = .none := by
      rw [Roster.flowsTo_track_of_ne fun h => by have := peerName_injective h; omega]
      exact hnew i (by omega)
    obtain ⟨hlanes, hpolicy, hfound, hflows⟩ := ih hrest
    have hfirst (P : ℕ → Prop) : (∃ i < (capacity :: capacities).length, P (index + i)) ↔
        P index ∨ ∃ i < capacities.length, P (index + 1 + i) := by
      constructor
      · rintro ⟨i, hi, h⟩
        cases i with
        | zero => exact Or.inl h
        | succ i => exact Or.inr ⟨i, by simpa using hi, by rwa [add_assoc, add_comm 1]⟩
      · rintro (h | ⟨i, hi, h⟩)
        · exact ⟨0, by simp, h⟩
        · exact ⟨i + 1, by simpa using hi, by rwa [← add_assoc, add_right_comm]⟩
    have hopen : openLanes load index (capacity :: capacities) roster =
        (Lane.start (peerName index) capacity (roster.nextId (peerName index)) load 0 ::
          (openLanes load (index + 1) capacities (roster.track (peerName index)).1).1,
        (openLanes load (index + 1) capacities (roster.track (peerName index)).1).2) := rfl
    rw [hopen, hnext]
    constructor
    · rw [hlanes, List.mapIdx_cons]
      simp [newLane, add_assoc, add_comm 1]
    · rw [hpolicy, Roster.track_policy]
    · intro peer
      rw [hfound, Roster.find?_track, hfind, hnext]
      simp only [hfirst (peer = peerName ·)]
      by_cases hpeer : peer = peerName index
      · simp [hpeer, flowId]
      · simp [hpeer]
    · intro id
      rw [hflows, Roster.flow?_track, hnext, Roster.track_policy]
      simp only [hfirst (id = flowId ·), hfind, true_and]
      by_cases hid : id = flowId index
      · simp [hid]
      · simp [hid]

end Trial

/-- What a lane has for good: its peer, its flow and its capacity. -/
def Lane.wiring (lane : Lane) : Peer × FlowId × Float := (lane.link.peer, lane.flow, lane.capacity)

namespace Trial

/-- Each lane leads to its own peer, whose one flow is the tracked one. -/
structure Wired (policy : Policy) (capacities : List Float) (trial : Trial) : Prop where
  policy_eq : trial.roster.policy = policy
  wiring_eq : trial.lanes.map Lane.wiring =
    capacities.mapIdx fun index capacity => (peerName index, flowId index, capacity)
  find?_eq : ∀ peer, trial.roster.find? peer =
    if peer ∈ peerNames capacities.length then some ⟨peer, 0⟩ else none
  exists_flow_iff : ∀ id, (∃ flow, trial.roster.flow? id = some flow) ↔
    ∃ index < capacities.length, id = flowId index
  peer_eq : ∀ id flow, trial.roster.flow? id = some flow → flow.peer = id.peer

variable {policy : Policy} {capacities : List Float} {settings : PolicySettings}
  {load : LoadSettings} {trial next : Trial} {move : Move} {index : ℕ} {lane lane' : Lane}

/-- A trial starts with the lanes and the roster that are opened for all its capacities, the first
one with the number zero. -/
theorem opened_start (settings : PolicySettings) (load : LoadSettings) (policy : Policy) :
    Opened load 0 load.capacities (.start policy) (start settings load policy).lanes
      (start settings load policy).roster :=
  opened_openLanes load fun _ _ => rfl

/-- The lanes of a new trial. -/
theorem lanes_start (settings : PolicySettings) (load : LoadSettings) (policy : Policy) :
    (start settings load policy).lanes = load.capacities.mapIdx (newLane load) := by
  rw [(opened_start settings load policy).lanes_eq]
  simp

/-- Every lane of a trial that starts is a new one. -/
theorem exists_newLane (hlane : lane ∈ (start settings load policy).lanes) :
    ∃ index capacity, lane = newLane load index capacity := by
  rw [lanes_start] at hlane
  obtain ⟨index, _, rfl⟩ := List.mem_mapIdx.mp hlane
  exact ⟨index, _, rfl⟩

/-- The flows of a new trial. -/
theorem flow?_start (settings : PolicySettings) (load : LoadSettings) (policy : Policy)
    (id : FlowId) : (start settings load policy).roster.flow? id =
      if ∃ index < load.capacities.length, id = flowId index then some (policy.newFlow id.peer)
      else none := by
  rw [(opened_start settings load policy).flow?_eq]
  simp only [zero_add, Roster.flow?_start]
  rfl

/-- A new trial is wired. -/
theorem wired_start (settings : PolicySettings) (load : LoadSettings) (policy : Policy) :
    (start settings load policy).Wired policy load.capacities := by
  have hopened := opened_start settings load policy
  constructor
  · exact hopened.policy_eq
  · rw [lanes_start]
    apply List.ext_getElem?
    intro index
    simp [List.getElem?_mapIdx, Function.comp_def, Lane.wiring, newLane, Lane.start, Link.start]
  · intro peer
    rw [hopened.find?_eq, Roster.find?_start]
    simp [mem_peerNames]
  · intro id
    simp [flow?_start]
  · intro id flow hflow
    rw [flow?_start] at hflow
    split_ifs at hflow
    obtain rfl := Option.some.inj hflow
    rfl

/-- A lane that keeps its wiring is replaced. -/
theorem map_wiring_withLane (hlane : trial.lanes[index]? = some lane)
    (h : lane'.wiring = lane.wiring) :
    (trial.withLane index lane').lanes.map Lane.wiring = trial.lanes.map Lane.wiring := by
  apply List.ext_getElem?
  intro i
  rw [List.getElem?_map, getElem?_withLane hlane, List.getElem?_map]
  split_ifs with heq
  · rw [← heq, hlane, Option.map_some, Option.map_some, h]
  · rfl

/-- Judging a flow leaves it with its peer. -/
theorem peer_judge (policy : Policy) (now : UInt64) (flow : Flow) :
    (policy.judge now flow).1.peer = flow.peer := by
  unfold Policy.judge
  split <;> rfl

/-- To count traffic leaves a flow to its peer. -/
theorem peer_record (flow : Flow) (direction : Direction) (events : UInt64) :
    (flow.record direction events).peer = flow.peer := by
  cases direction <;> rfl

namespace Wired

variable (h : trial.Wired policy capacities)

include h

/-- What is known of the lane with a number. -/
theorem wiring_lane (hlane : trial.lanes[index]? = some lane) :
    lane.link.peer = peerName index ∧ lane.flow = flowId index ∧
      capacities[index]? = some lane.capacity := by
  have hwiring : (trial.lanes.map Lane.wiring)[index]? = some lane.wiring := by
    rw [List.getElem?_map, hlane, Option.map_some]
  rw [h.wiring_eq, List.getElem?_mapIdx, Option.map_eq_some_iff] at hwiring
  obtain ⟨capacity, hcapacity, heq⟩ := hwiring
  simp only [Lane.wiring, Prod.mk.injEq] at heq
  exact ⟨heq.1.symm, heq.2.1.symm, heq.2.2 ▸ hcapacity⟩

/-- There are as many lanes as capacities. -/
theorem length_lanes : trial.lanes.length = capacities.length := by
  have hlength := congrArg List.length h.wiring_eq
  simpa using hlength

/-- A lane has a flow. -/
theorem exists_flow (hlane : trial.lanes[index]? = some lane) :
    ∃ flow, trial.roster.flow? (flowId index) = some flow := by
  obtain ⟨hlt, -⟩ := List.getElem?_eq_some_iff.mp hlane
  rw [h.length_lanes] at hlt
  exact (h.exists_flow_iff _).mpr ⟨index, hlt, rfl⟩

/-- The flow of a lane is the tracked one. -/
theorem find?_lane (hlane : trial.lanes[index]? = some lane) :
    trial.roster.find? lane.link.peer = some lane.flow := by
  obtain ⟨hpeer, hflow, hcapacity⟩ := h.wiring_lane hlane
  have hlt := (List.getElem?_eq_some_iff.mp hcapacity).1
  rw [h.find?_eq, hpeer, hflow, if_pos (mem_peerNames.mpr ⟨index, hlt, rfl⟩)]
  rfl

/-- The flow of a lane is one to its peer. -/
theorem flow?_lane (hlane : trial.lanes[index]? = some lane) :
    ∃ flow, trial.roster.flow? lane.flow = some flow ∧ flow.peer = lane.link.peer := by
  obtain ⟨hpeer, hid, -⟩ := h.wiring_lane hlane
  obtain ⟨flow, hflow⟩ := h.exists_flow hlane
  refine ⟨flow, hid ▸ hflow, ?_⟩
  rw [h.peer_eq _ flow hflow, hpeer, flowId_peer]

/-- The roster of a trial tracks only flows that it has opened. -/
theorem sound : trial.roster.Sound where
  exists_of_find? peer id hfind := by
    rw [h.find?_eq] at hfind
    split_ifs at hfind with hpeer
    obtain rfl := Option.some.inj hfind
    obtain ⟨index, hindex, rfl⟩ := mem_peerNames.mp hpeer
    exact (h.exists_flow_iff _).mpr ⟨index, hindex, rfl⟩
  peer_eq := h.peer_eq

/-- When all tracked flows are judged, all flows are. -/
theorem flow?_judgeAll (now : UInt64) (id : FlowId) :
    (trial.roster.judgeAll now).1.flow? id =
      (trial.roster.flow? id).map fun flow => (policy.judge now flow).1 := by
  rw [Roster.judgeAll, (Roster.judgeEach_of_nodup _ now Roster.nodup_trackedIds id).1]
  split_ifs with htracked
  · rw [Roster.flow?_judge, if_pos rfl, h.policy_eq]
  · cases hflow : trial.roster.flow? id with
    | none => rfl
    | some flow =>
      obtain ⟨index, hindex, rfl⟩ := (h.exists_flow_iff id).mp ⟨flow, hflow⟩
      refine absurd (Roster.mem_trackedIds.mpr ?_) htracked
      rw [h.find?_eq, flowId_peer, if_pos (mem_peerNames.mpr ⟨index, hindex, rfl⟩)]
      rfl

/-- A change of flows that leaves each with its peer keeps the wiring. -/
theorem of_map (f : FlowId → Flow → Flow)
    (hlanes : next.lanes.map Lane.wiring = trial.lanes.map Lane.wiring)
    (hpolicy : next.roster.policy = trial.roster.policy)
    (hfind : ∀ peer, next.roster.find? peer = trial.roster.find? peer)
    (hflow : ∀ id, next.roster.flow? id = (trial.roster.flow? id).map (f id))
    (hpeer : ∀ id flow, (f id flow).peer = flow.peer) : next.Wired policy capacities where
  policy_eq := hpolicy.trans h.policy_eq
  wiring_eq := hlanes.trans h.wiring_eq
  find?_eq peer := (hfind peer).trans (h.find?_eq peer)
  exists_flow_iff id := by
    rw [← h.exists_flow_iff, hflow]
    simp
  peer_eq id flow hsome := by
    rw [hflow, Option.map_eq_some_iff] at hsome
    obtain ⟨before, hbefore, rfl⟩ := hsome
    rw [hpeer, h.peer_eq id before hbefore]

/-- A move of a lane alone keeps the wiring. -/
theorem withLane (hlane : trial.lanes[index]? = some lane) (hwiring : lane'.wiring = lane.wiring) :
    (trial.withLane index lane').Wired policy capacities :=
  h.of_map (fun _ flow => flow) (map_wiring_withLane hlane hwiring) rfl (fun _ => rfl)
    (fun _ => Option.map_id'.symm) (fun _ _ => rfl)

/-- Counting traffic keeps the wiring. -/
theorem count (id : FlowId) (direction : Direction) :
    (trial.count id direction).Wired policy capacities := by
  apply h.of_map fun other flow => if other = id then flow.record direction 1 else flow
  · rfl
  · rfl
  · exact fun _ => Roster.find?_modify _
  · intro other
    rw [flow?_count]
    by_cases heq : other = id
    · simp [heq]
    · simp [heq]
  · intro other flow
    split_ifs
    · exact peer_record flow direction 1
    · rfl

/-- A move of a lane that counts traffic keeps the wiring. -/
theorem withLane_count (hlane : trial.lanes[index]? = some lane)
    (hwiring : lane'.wiring = lane.wiring) (id : FlowId) (direction : Direction) :
    ((trial.withLane index lane').count id direction).Wired policy capacities :=
  (h.withLane hlane hwiring).count id direction

/-- A check keeps the wiring. -/
theorem checked : trial.checked.Wired policy capacities := by
  refine h.of_map (fun _ flow => (policy.judge (trial.watch.millis trial.now) flow).1) rfl ?_ ?_
    (h.flow?_judgeAll _) fun _ => peer_judge policy _
  · exact Roster.judgeEach_policy _
  · exact fun _ => Roster.find?_judgeEach _

/-- Every move keeps the wiring. -/
theorem acts (hact : trial.Acts move next) : next.Wired policy capacities := by
  cases hact with
  | offer _ _ hlane _ _ _ => exact h.withLane hlane rfl
  | queue hlane _ _ _ _ => exact h.withLane_count hlane (by rfl) _ _
  | drop hlane _ _ _ _ => exact h.withLane_count hlane (by rfl) _ _
  | giveUp hlane _ _ _ => exact h.withLane hlane rfl
  | tick hlane _ _ => exact h.withLane hlane rfl
  | acknowledge hlane _ _ _ => exact h.withLane hlane rfl
  | hangUp hlane _ _ => exact h.withLane hlane rfl
  | hear hlane _ => exact h.withLane_count hlane (by rfl) _ _
  | check _ => exact h.checked
  | rest _ => exact ⟨h.policy_eq, h.wiring_eq, h.find?_eq, h.exists_flow_iff, h.peer_eq⟩

end Wired

/-- **At every point of every run a trial is wired.** -/
theorem wired_run {moves : List Move} {last : Trial}
    (hrun : (start settings load policy).run? moves = some last) :
    last.Wired policy load.capacities :=
  run?_preserves (fun h hact => h.acts hact) (wired_start settings load policy) hrun

end Trial

end FlowControl
