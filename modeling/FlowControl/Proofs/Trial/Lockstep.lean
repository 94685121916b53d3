import FlowControl.Proofs.Course.Basic
import FlowControl.Proofs.Pacing.Slots
import FlowControl.Proofs.Text.Utf8
import FlowControl.Proofs.Trial.Ends
import Mathlib.Data.List.Chain

/-!
# Flows in lockstep

All flows of a trial are judged together, so their windows close together: at every check either
all of them close one or none does. A check that closes windows takes one sample of every flow, in
the order of the peers. The samples of a trial are therefore blocks, each with one sample of every
peer, and a peer has as many samples as its flow closed windows.
-/

namespace FlowControl

/-- The sample that is taken of a flow. -/
def Flow.sample (flow : Flow) (elapsedMs : UInt64) : Sample :=
  ⟨elapsedMs, flow.peer, flow.limit?, flow.overloaded⟩

/-- Of entries with different keys only one has the key of an entry. -/
theorem filter_key_eq {α κ : Type} [DecidableEq κ] (key : α → κ) {items : List α} {item : α}
    (hnodup : (items.map key).Nodup) (hmem : item ∈ items) :
    items.filter (fun other => decide (key other = key item)) = [item] := by
  induction items with
  | nil => exact absurd hmem List.not_mem_nil
  | cons first items ih =>
    rw [List.map_cons, List.nodup_cons] at hnodup
    rcases List.mem_cons.mp hmem with rfl | hrest
    · have hnone : items.filter (fun other => decide (key other = key item)) = [] := by
        refine List.filter_eq_nil_iff.mpr fun other hother heq => hnodup.1 ?_
        exact of_decide_eq_true heq ▸ List.mem_map_of_mem hother
      rw [List.filter_cons, if_pos (decide_eq_true rfl), hnone]
    · have hne : ¬ decide (key first = key item) = true := fun heq =>
        hnodup.1 (of_decide_eq_true heq ▸ List.mem_map_of_mem hrest)
      rw [List.filter_cons, if_neg hne, ih hnodup.2 hrest]

namespace Trial

variable {policy : Policy} {capacities : List Float} {settings : PolicySettings}
  {load : LoadSettings} {trial next last : Trial} {move : Move} {moves : List Move}
  {peer : Peer} {id : FlowId} {flow : Flow} {flows : List Flow} {sampled : Dictionary UInt64}
  {elapsedMs : UInt64}

/-! ### Taking samples -/

/-- To note how many windows of one peer are sampled changes nothing for the others. -/
theorem sampledOf_insert (closed : UInt64) (other : Peer) :
    sampledOf (sampled.insert peer closed) other =
      if other = peer then closed else sampledOf sampled other := by
  rw [sampledOf, Dictionary.get?_insert]
  split_ifs <;> rfl

/-- Flows without a newly closed window give no sample. -/
theorem sampleAll_of_le (h : ∀ flow ∈ flows, flow.windowsClosed ≤ sampledOf sampled flow.peer) :
    sampleAll elapsedMs flows sampled = ([], sampled) := by
  induction flows with
  | nil => rfl
  | cons flow flows ih =>
    obtain ⟨hflow, hrest⟩ := List.forall_mem_cons.mp h
    rw [sampleAll, if_pos hflow, ih hrest]

/-- Flows to different peers, each with a newly closed window, give a sample each. -/
theorem sampleAll_of_lt (elapsedMs : UInt64) {closed : UInt64}
    (hpeers : (flows.map Flow.peer).Nodup)
    (hclosed : ∀ flow ∈ flows, flow.windowsClosed = closed)
    (hlt : ∀ flow ∈ flows, sampledOf sampled flow.peer < closed) :
    (sampleAll elapsedMs flows sampled).1 = flows.map (·.sample elapsedMs) ∧
      ∀ peer, sampledOf (sampleAll elapsedMs flows sampled).2 peer =
        if peer ∈ flows.map Flow.peer then closed else sampledOf sampled peer := by
  induction flows generalizing sampled with
  | nil => exact ⟨rfl, fun _ => rfl⟩
  | cons flow flows ih =>
    rw [List.map_cons, List.nodup_cons] at hpeers
    obtain ⟨hflow, hflows⟩ := List.forall_mem_cons.mp hclosed
    obtain ⟨hfirst, hrest⟩ := List.forall_mem_cons.mp hlt
    have hother : ∀ other ∈ flows,
        sampledOf (sampled.insert flow.peer flow.windowsClosed) other.peer < closed := by
      intro other hmem
      have hne : other.peer ≠ flow.peer := fun heq =>
        hpeers.1 (heq ▸ List.mem_map_of_mem hmem)
      rw [sampledOf_insert, if_neg hne]
      exact hrest other hmem
    obtain ⟨hsamples, hsampled⟩ := ih hpeers.2 hflows hother
    have hnew : ¬ flow.windowsClosed ≤ sampledOf sampled flow.peer := by
      rw [hflow]
      exact UInt64.not_le.mpr hfirst
    rw [sampleAll, if_neg hnew]
    refine ⟨congrArg (List.cons _) hsamples, fun peer => (hsampled peer).trans ?_⟩
    rw [sampledOf_insert, hflow, List.map_cons]
    by_cases hpeer : peer = flow.peer
    · simp [hpeer]
    · simp [hpeer]

/-! ### The tracked flows -/

/-- In a trial the tracked flows are all flows that there are. -/
theorem Wired.mem_trackedFlows (h : trial.Wired policy capacities) :
    flow ∈ trial.roster.trackedFlows ↔ ∃ id, trial.roster.flow? id = some flow := by
  rw [Roster.mem_trackedFlows]
  constructor
  · rintro ⟨_, id, -, hflow⟩
    exact ⟨id, hflow⟩
  · rintro ⟨id, hflow⟩
    obtain ⟨index, hindex, rfl⟩ := (h.exists_flow_iff id).mp ⟨flow, hflow⟩
    refine ⟨peerName index, flowId index, ?_, hflow⟩
    rw [h.find?_eq, if_pos (mem_peerNames.mpr ⟨index, hindex, rfl⟩)]
    rfl

/-- Where there are peers, there are flows to judge. -/
theorem Wired.trackedFlows_ne_nil (h : trial.Wired policy capacities) (hne : capacities ≠ []) :
    trial.roster.trackedFlows ≠ [] := by
  obtain ⟨flow, hflow⟩ := (h.exists_flow_iff (flowId 0)).mpr
    ⟨0, List.length_pos_iff.mpr hne, rfl⟩
  exact List.ne_nil_of_mem (h.mem_trackedFlows.mpr ⟨_, hflow⟩)

/-- The tracked flows are those to the peers. -/
theorem Wired.map_peer_trackedFlows_perm (h : trial.Wired policy capacities) :
    (trial.roster.trackedFlows.map Flow.peer).Perm (peerNames capacities.length) := by
  have hnodup : (trial.roster.trackedFlows.map Flow.peer).Nodup :=
    List.pairwise_map.mpr (h.sound.trackedFlows_ascending.imp fun hlt => hlt.ne)
  rw [List.perm_ext_iff_of_nodup hnodup (nodup_peerNames _)]
  intro peer
  simp only [List.mem_map, h.mem_trackedFlows, mem_peerNames]
  constructor
  · rintro ⟨flow, ⟨id, hflow⟩, rfl⟩
    obtain ⟨index, hindex, rfl⟩ := (h.exists_flow_iff id).mp ⟨flow, hflow⟩
    exact ⟨index, hindex, h.peer_eq _ flow hflow⟩
  · rintro ⟨index, hindex, rfl⟩
    obtain ⟨flow, hflow⟩ := (h.exists_flow_iff (flowId index)).mpr ⟨index, hindex, rfl⟩
    exact ⟨flow, ⟨_, hflow⟩, h.peer_eq _ flow hflow⟩

/-! ### Blocks of samples -/

/-- A sample of each of the first peers, taken at one time, in the order of the names. -/
structure IsBlock (peers : ℕ) (elapsed : ℕ) (block : List Sample) : Prop where
  perm : (block.map Sample.peer).Perm (peerNames peers)
  ascending : block.Pairwise fun a b => Text.utf8 a.peer < Text.utf8 b.peer
  elapsed_eq : ∀ sample ∈ block, sample.elapsedMs.toNat = elapsed

/-- The samples of flows name the peers of the flows, in the same order. -/
theorem map_peer_sample (flows : List Flow) (elapsedMs : UInt64) :
    (flows.map (·.sample elapsedMs)).map Sample.peer = flows.map Flow.peer := by
  rw [List.map_map]
  rfl

/-- The samples of all tracked flows are a block. -/
theorem Wired.isBlock (h : trial.Wired policy capacities) (elapsedMs : UInt64) :
    IsBlock capacities.length elapsedMs.toNat
      (trial.roster.trackedFlows.map (·.sample elapsedMs)) where
  perm := by
    rw [map_peer_sample]
    exact h.map_peer_trackedFlows_perm
  ascending := List.pairwise_map.mpr
    (h.sound.trackedFlows_ascending.imp fun hlt => Text.utf8_lt_iff.mpr hlt)
  elapsed_eq sample hsample := by
    obtain ⟨flow, -, rfl⟩ := List.mem_map.mp hsample
    rfl

/-- The block holds one sample of a flow. -/
theorem Wired.filter_block (h : trial.Wired policy capacities)
    (hflow : trial.roster.flow? id = some flow) (elapsedMs : UInt64) :
    (trial.roster.trackedFlows.map (·.sample elapsedMs)).filter
      (fun sample => decide (sample.peer = flow.peer)) = [flow.sample elapsedMs] := by
  have hnodup : ((trial.roster.trackedFlows.map (·.sample elapsedMs)).map Sample.peer).Nodup := by
    rw [map_peer_sample]
    exact h.map_peer_trackedFlows_perm.nodup_iff.mpr (nodup_peerNames _)
  have hmem : flow.sample elapsedMs ∈ trial.roster.trackedFlows.map (·.sample elapsedMs) :=
    List.mem_map_of_mem (h.mem_trackedFlows.mpr ⟨id, hflow⟩)
  exact filter_key_eq Sample.peer hnodup hmem

/-! ### Times a window apart -/

/-- Times, the first of them and any two that follow one another a window apart. -/
def Spaced (window : ℕ) (times : List ℕ) : Prop :=
  (0 :: times).IsChain fun earlier later => earlier + window ≤ later

/-- A time that comes a window after the last one may follow it. -/
theorem Spaced.concat {window time : ℕ} {times : List ℕ} (h : Spaced window times)
    (hlast : times.getLastD 0 + window ≤ time) : Spaced window (times ++ [time]) := by
  refine List.isChain_append.mpr ⟨h, List.isChain_singleton _, ?_⟩
  intro earlier hearlier later hlater
  rw [List.getLast?_cons, Option.mem_some_iff, ← List.getLastD_eq_getLast?] at hearlier
  rw [List.head?_singleton, Option.mem_some_iff] at hlater
  rwa [← hearlier, ← hlater]

/-- The time with a number is as many windows away. -/
theorem Spaced.mul_le {window : ℕ} {times : List ℕ} (h : Spaced window times) {k time : ℕ}
    (hk : times[k]? = some time) : (k + 1) * window ≤ time := by
  have hfrom (start : ℕ) (times : List ℕ)
      (hchain : (start :: times).IsChain fun earlier later => earlier + window ≤ later) (k : ℕ)
      (hk : times[k]? = some time) : start + (k + 1) * window ≤ time := by
    induction times generalizing start k with
    | nil => exact absurd hk.symm (Option.some_ne_none _)
    | cons first times ih =>
      obtain ⟨hfirst, hrest⟩ := List.isChain_cons_cons.mp hchain
      cases k with
      | zero =>
        obtain rfl := Option.some.inj hk
        omega
      | succ k =>
        have hlater := ih first hrest k hk
        rw [Nat.succ_mul (k + 1)]
        omega
  have hzero := hfrom 0 times h k hk
  omega

/-! ### Lockstep -/

/-- All flows stand at the same window. They closed their windows at the times at which samples
were taken, and the last sample of a peer shows its flow. -/
structure Lockstep (peers window : ℕ) (times : List ℕ) (trial : Trial) : Prop where
  watch_eq : trial.watch = ⟨0⟩
  spaced : Spaced window times
  blocks : List.Forall₂ (IsBlock peers) times trial.blocks.reverse
  lastDecision_eq : ∀ id flow, trial.roster.flow? id = some flow →
    flow.lastDecision.toNat = times.getLastD 0
  windowsClosed_eq : ∀ id flow, trial.roster.flow? id = some flow →
    flow.windowsClosed.toNat = times.length
  sampled_eq : ∀ id flow, trial.roster.flow? id = some flow →
    (sampledOf trial.sampled flow.peer).toNat = times.length
  count_eq : ∀ id flow, trial.roster.flow? id = some flow →
    (trial.samples.filter fun sample => decide (sample.peer = flow.peer)).length = times.length
  latest : ∀ id flow, trial.roster.flow? id = some flow →
    (trial.samples.filter fun sample => decide (sample.peer = flow.peer)).getLast?.bind
      Sample.rate = flow.limit?

namespace Lockstep

variable {peers window : ℕ} {times : List ℕ}

/-- What leaves the windows, the limits and the samples alone keeps the lockstep. -/
theorem of_map (h : trial.Lockstep peers window times) (f : FlowId → Flow → Flow)
    (hwatch : next.watch = trial.watch) (hblocks : next.blocks = trial.blocks)
    (hsampled : next.sampled = trial.sampled)
    (hflow : ∀ id, next.roster.flow? id = (trial.roster.flow? id).map (f id))
    (hkeep : ∀ id flow, (f id flow).peer = flow.peer ∧
      (f id flow).lastDecision = flow.lastDecision ∧
      (f id flow).windowsClosed = flow.windowsClosed ∧ (f id flow).limit? = flow.limit?) :
    next.Lockstep peers window times := by
  have hbefore {id : FlowId} {flow : Flow} (hnext : next.roster.flow? id = some flow) :
      ∃ before, trial.roster.flow? id = some before ∧ flow.peer = before.peer ∧
        flow.lastDecision = before.lastDecision ∧ flow.windowsClosed = before.windowsClosed ∧
        flow.limit? = before.limit? := by
    rw [hflow, Option.map_eq_some_iff] at hnext
    obtain ⟨before, hbefore, rfl⟩ := hnext
    exact ⟨before, hbefore, hkeep id before⟩
  have hsamples : next.samples = trial.samples := by rw [samples, hblocks, samples]
  exact {
    watch_eq := hwatch.trans h.watch_eq
    spaced := h.spaced
    blocks := hblocks ▸ h.blocks
    lastDecision_eq := fun id flow hnext => by
      obtain ⟨before, hsome, -, hdecision, -⟩ := hbefore hnext
      rw [hdecision, h.lastDecision_eq id before hsome]
    windowsClosed_eq := fun id flow hnext => by
      obtain ⟨before, hsome, -, -, hclosed, -⟩ := hbefore hnext
      rw [hclosed, h.windowsClosed_eq id before hsome]
    sampled_eq := fun id flow hnext => by
      obtain ⟨before, hsome, hpeer, -⟩ := hbefore hnext
      rw [hsampled, hpeer, h.sampled_eq id before hsome]
    count_eq := fun id flow hnext => by
      obtain ⟨before, hsome, hpeer, -⟩ := hbefore hnext
      rw [hsamples, hpeer, h.count_eq id before hsome]
    latest := fun id flow hnext => by
      obtain ⟨before, hsome, hpeer, -, -, hlimit⟩ := hbefore hnext
      rw [hsamples, hpeer, hlimit, h.latest id before hsome] }

/-- A move of a lane alone keeps the lockstep. -/
theorem withLane (h : trial.Lockstep peers window times) (index : ℕ) (lane : Lane) :
    (trial.withLane index lane).Lockstep peers window times :=
  h.of_map (fun _ flow => flow) rfl rfl rfl (fun _ => Option.map_id'.symm)
    fun _ _ => ⟨rfl, rfl, rfl, rfl⟩

/-- Counting traffic keeps the lockstep. -/
theorem count (h : trial.Lockstep peers window times) (id : FlowId) (direction : Direction) :
    (trial.count id direction).Lockstep peers window times := by
  refine h.of_map (fun other flow => if other = id then flow.record direction 1 else flow)
    rfl rfl rfl ?_ ?_
  · intro other
    rw [flow?_count]
    by_cases heq : other = id
    · simp [heq]
    · simp [heq]
  · intro other flow
    split_ifs
    · cases direction <;> exact ⟨rfl, rfl, rfl, rfl⟩
    · exact ⟨rfl, rfl, rfl, rfl⟩

/-- All flows are due together. -/
theorem isDue_iff (h : trial.Lockstep peers policy.window.millis.toNat times)
    (hflow : trial.roster.flow? id = some flow) (now : UInt64) :
    flow.isDue policy.window now = true ↔
      policy.window.millis.toNat ≤ now.toNat - times.getLastD 0 := by
  rw [Flow.isDue, decide_eq_true_iff, h.lastDecision_eq id flow hflow]

/-- A check at which no flow is due changes none and takes no sample. -/
theorem checked_of_not_due (h : trial.Lockstep peers policy.window.millis.toNat times)
    (hwired : trial.Wired policy capacities)
    (hdue : ¬ policy.window.millis.toNat ≤
      (trial.watch.millis trial.now).toNat - times.getLastD 0) :
    trial.checked.Lockstep peers policy.window.millis.toNat times := by
  have hflow (id : FlowId) : trial.checked.roster.flow? id = trial.roster.flow? id := by
    rw [checked_roster, hwired.flow?_judgeAll]
    cases hsome : trial.roster.flow? id with
    | none => rfl
    | some flow =>
      rw [Option.map_some, Policy.judge_of_not_isDue ((h.isDue_iff hsome _).not.mpr hdue)]
  have hnone : sampleAll (saturate (trial.now / nanosPerMilli)) trial.checked.roster.trackedFlows
      trial.sampled = ([], trial.sampled) := by
    refine sampleAll_of_le fun flow hmem => UInt64.le_iff_toNat_le.mpr ?_
    obtain ⟨id, hid⟩ := hwired.checked.mem_trackedFlows.mp hmem
    rw [hflow] at hid
    rw [h.windowsClosed_eq id flow hid, h.sampled_eq id flow hid]
  apply h.of_map fun _ flow => flow
  · rfl
  · rw [checked_blocks, hnone]
    rfl
  · rw [checked_sampled, hnone]
  · exact fun id => (hflow id).trans Option.map_id'.symm
  · exact fun _ _ => ⟨rfl, rfl, rfl, rfl⟩

/-- A check at which the flows are due closes a window of each. -/
theorem exists_of_due (h : trial.Lockstep peers policy.window.millis.toNat times)
    (hwired : trial.Wired policy capacities)
    (hdue : policy.window.millis.toNat ≤
      (trial.watch.millis trial.now).toNat - times.getLastD 0)
    (hflow : trial.checked.roster.flow? id = some flow) :
    ∃ before, trial.roster.flow? id = some before ∧
      flow = before.close (trial.watch.millis trial.now) (policy.verdict before) := by
  rw [checked_roster, hwired.flow?_judgeAll, Option.map_eq_some_iff] at hflow
  obtain ⟨before, hbefore, rfl⟩ := hflow
  rw [Policy.judge_of_isDue ((h.isDue_iff hbefore _).mpr hdue)]
  exact ⟨before, hbefore, rfl⟩

/-- A check at which the flows are due takes a sample of each. -/
theorem checked_taken (hwired : trial.Wired policy capacities) (hne : capacities ≠ [])
    (closed : UInt64)
    (hclosed : ∀ id flow, trial.checked.roster.flow? id = some flow → flow.windowsClosed = closed)
    (hlt : ∀ id flow, trial.checked.roster.flow? id = some flow →
      sampledOf trial.sampled flow.peer < closed) :
    trial.checked.blocks = trial.checked.roster.trackedFlows.map
        (·.sample (saturate (trial.now / nanosPerMilli))) :: trial.blocks ∧
      ∀ id flow, trial.checked.roster.flow? id = some flow →
        sampledOf trial.checked.sampled flow.peer = closed := by
  have hmem {flow : Flow} : flow ∈ trial.checked.roster.trackedFlows ↔
      ∃ id, trial.checked.roster.flow? id = some flow := hwired.checked.mem_trackedFlows
  have hnodup : (trial.checked.roster.trackedFlows.map Flow.peer).Nodup :=
    hwired.checked.map_peer_trackedFlows_perm.nodup_iff.mpr (nodup_peerNames _)
  obtain ⟨hsamples, hsampled⟩ := sampleAll_of_lt (saturate (trial.now / nanosPerMilli)) hnodup
    (fun flow hflow => (hmem.mp hflow).elim fun id hid => hclosed id flow hid)
    (fun flow hflow => (hmem.mp hflow).elim fun id hid => hlt id flow hid)
  constructor
  · have hsome : (trial.checked.roster.trackedFlows.map
        (·.sample (saturate (trial.now / nanosPerMilli)))).isEmpty = false := by
      rw [List.isEmpty_map, List.isEmpty_eq_false_iff]
      exact hwired.checked.trackedFlows_ne_nil hne
    rw [checked_blocks, hsamples, hsome]
    rfl
  · intro id flow hflow
    rw [checked_sampled, hsampled, if_pos]
    exact List.mem_map_of_mem (hmem.mpr ⟨id, hflow⟩)

/-- A check at which the flows are due keeps the lockstep, one window later. -/
theorem checked_of_due (h : trial.Lockstep capacities.length policy.window.millis.toNat times)
    (hwired : trial.Wired policy capacities) (hne : capacities ≠ [])
    (hdue : policy.window.millis.toNat ≤
      (trial.watch.millis trial.now).toNat - times.getLastD 0) :
    trial.checked.Lockstep capacities.length policy.window.millis.toNat
      (times ++ [(trial.watch.millis trial.now).toNat]) := by
  have hclock : saturate (trial.now / nanosPerMilli) = trial.watch.millis trial.now := by
    rw [h.watch_eq]
    rfl
  have hpositive : 0 < policy.window.millis.toNat :=
    Nat.pos_of_ne_zero fun hzero => policy.window_ne_zero (UInt64.toNat_inj.mp hzero)
  have hspaced := h.spaced.concat (show _ ≤ (trial.watch.millis trial.now).toNat by omega)
  have hbefore {id : FlowId} {flow : Flow}
      (hflow : trial.checked.roster.flow? id = some flow) := h.exists_of_due hwired hdue hflow
  -- a window takes a millisecond at least, so there are no more windows than milliseconds
  have hroom : times.length + 1 < 2 ^ 64 := by
    have hmul := hspaced.mul_le List.getElem?_concat_length
    have hword := (trial.watch.millis trial.now).toNat_lt
    exact ((Nat.le_mul_of_pos_right _ hpositive).trans hmul).trans_lt hword
  have hcount {id : FlowId} {flow : Flow} (hflow : trial.checked.roster.flow? id = some flow) :
      flow.windowsClosed.toNat = times.length + 1 := by
    obtain ⟨before, hsome, rfl⟩ := hbefore hflow
    rw [Flow.close, UInt64.toNat_add, h.windowsClosed_eq id before hsome]
    exact Nat.mod_eq_of_lt hroom
  obtain ⟨hblocks, hsampled⟩ := checked_taken hwired hne (.ofNat (times.length + 1))
    (fun id flow hflow => UInt64.toNat_inj.mp
      ((hcount hflow).trans (Nat.mod_eq_of_lt hroom).symm))
    (fun id flow hflow => by
      obtain ⟨before, hsome, rfl⟩ := hbefore hflow
      rw [UInt64.lt_iff_toNat_lt, Flow.close, h.sampled_eq id before hsome]
      exact (Nat.lt_succ_self _).trans_eq (Nat.mod_eq_of_lt hroom).symm)
  rw [hclock] at hblocks
  have hsamples : trial.checked.samples =
      trial.samples ++ trial.checked.roster.trackedFlows.map
        (·.sample (trial.watch.millis trial.now)) := by
    rw [samples, hblocks, List.reverse_cons, List.flatten_append, List.flatten_singleton, samples]
  have hfilter {id : FlowId} {flow : Flow}
      (hflow : trial.checked.roster.flow? id = some flow) :
      trial.checked.samples.filter (fun sample => decide (sample.peer = flow.peer)) =
        trial.samples.filter (fun sample => decide (sample.peer = flow.peer)) ++
          [flow.sample (trial.watch.millis trial.now)] := by
    rw [hsamples, List.filter_append, hwired.checked.filter_block hflow]
  exact {
    watch_eq := h.watch_eq
    spaced := hspaced
    blocks := by
      rw [hblocks, List.reverse_cons]
      exact List.rel_append h.blocks (.cons (hwired.checked.isBlock _) .nil)
    lastDecision_eq := fun id flow hflow => by
      obtain ⟨before, -, rfl⟩ := hbefore hflow
      rw [List.getLastD_concat]
      rfl
    windowsClosed_eq := fun id flow hflow => by
      rw [hcount hflow, List.length_append, List.length_singleton]
    sampled_eq := fun id flow hflow => by
      rw [hsampled id flow hflow, List.length_append, List.length_singleton]
      exact Nat.mod_eq_of_lt hroom
    count_eq := fun id flow hflow => by
      obtain ⟨before, hsome, rfl⟩ := hbefore hflow
      rw [hfilter hflow, List.length_append, List.length_append]
      exact congrArg (· + 1) (h.count_eq id before hsome)
    latest := fun id flow hflow => by
      rw [hfilter hflow, List.getLast?_concat]
      rfl }

/-- Every move keeps the lockstep. -/
theorem acts (h : trial.Lockstep capacities.length policy.window.millis.toNat times)
    (hwired : trial.Wired policy capacities) (hne : capacities ≠ [])
    (hact : trial.Acts move next) :
    ∃ times, next.Lockstep capacities.length policy.window.millis.toNat times := by
  cases hact with
  | offer _ _ _ _ _ _ => exact ⟨times, h.withLane _ _⟩
  | queue _ _ _ _ _ => exact ⟨times, (h.withLane _ _).count _ _⟩
  | drop _ _ _ _ _ => exact ⟨times, (h.withLane _ _).count _ _⟩
  | giveUp _ _ _ _ => exact ⟨times, h.withLane _ _⟩
  | tick _ _ _ => exact ⟨times, h.withLane _ _⟩
  | acknowledge _ _ _ _ => exact ⟨times, h.withLane _ _⟩
  | hangUp _ _ _ => exact ⟨times, h.withLane _ _⟩
  | hear _ _ => exact ⟨times, (h.withLane _ _).count _ _⟩
  | check _ =>
    by_cases hdue : policy.window.millis.toNat ≤
        (trial.watch.millis trial.now).toNat - times.getLastD 0
    · exact ⟨_, h.checked_of_due hwired hne hdue⟩
    · exact ⟨times, h.checked_of_not_due hwired hdue⟩
  | rest _ =>
    exact ⟨times, h.watch_eq, h.spaced, h.blocks, h.lastDecision_eq, h.windowsClosed_eq,
      h.sampled_eq, h.count_eq, h.latest⟩

end Lockstep

/-- The flows of a new trial are in lockstep. -/
theorem lockstep_start (settings : PolicySettings) (load : LoadSettings) (policy : Policy)
    (window : ℕ) :
    (start settings load policy).Lockstep load.capacities.length window [] := by
  have hnew {id : FlowId} {flow : Flow}
      (hflow : (start settings load policy).roster.flow? id = some flow) :
      flow = policy.newFlow id.peer := by
    rw [flow?_start] at hflow
    split_ifs at hflow
    exact (Option.some.inj hflow).symm
  exact {
    watch_eq := rfl
    spaced := List.isChain_singleton 0
    blocks := .nil
    lastDecision_eq := fun id flow hflow => by
      rw [hnew hflow]
      rfl
    windowsClosed_eq := fun id flow hflow => by
      rw [hnew hflow]
      rfl
    sampled_eq := fun _ _ _ => rfl
    count_eq := fun _ _ _ => rfl
    latest := fun id flow hflow => by
      have hinfinite : ¬ unbounded.isFinite = true := by decide +kernel
      rw [hnew hflow]
      exact (if_neg hinfinite).symm }

/-- **At every point of every run the flows are in lockstep.** -/
theorem exists_lockstep (hne : load.capacities ≠ [])
    (hrun : (start settings load policy).run? moves = some last) :
    ∃ times, last.Lockstep load.capacities.length policy.window.millis.toNat times := by
  have hkept : last.Wired policy load.capacities ∧
      ∃ times, last.Lockstep load.capacities.length policy.window.millis.toNat times := by
    refine run?_preserves (P := fun trial => trial.Wired policy load.capacities ∧
      ∃ times, trial.Lockstep load.capacities.length policy.window.millis.toNat times) ?_
      ⟨wired_start settings load policy, [], lockstep_start settings load policy _⟩ hrun
    rintro trial next move ⟨hwired, times, h⟩ hact
    exact ⟨hwired.acts hact, h.acts hwired hne hact⟩
  exact hkept.2

end Trial

/-! ### Reports -/

namespace Report

/-- The samples of a peer, in the order in which they were taken. -/
def samplesOf (report : Report) (peer : Peer) : List Sample :=
  report.samples.filter fun sample => decide (sample.peer = peer)

/-- What the report of a trial looks like. -/
structure Regular (report : Report) (roster : Roster) (capacities : List Float) (window : ℕ) :
    Prop where
  /-- There is a summary for each capacity, in that order. -/
  peers_eq : report.peers.map (fun summary => (summary.peer, summary.capacity)) =
    capacities.mapIdx fun index capacity => (Trial.peerName index, capacity)
  /-- The samples are blocks, taken at times a window apart. -/
  blocks : ∃ times blocks, report.samples = blocks.flatten ∧
    List.Forall₂ (Trial.IsBlock capacities.length) times blocks ∧ Trial.Spaced window times ∧
    ∀ k time, times[k]? = some time → (k + 1) * window ≤ time
  /-- A peer has a sample for each window that its flow closed. -/
  windows_eq : ∀ summary ∈ report.peers, ∃ id flow, roster.find? summary.peer = some id ∧
    roster.flow? id = some flow ∧
    (report.samplesOf summary.peer).length = flow.windowsClosed.toNat
  /-- The windows in which a peer was overloaded are those whose sample says so. -/
  overloaded_eq : ∀ summary ∈ report.peers, summary.overloadedWindows.toNat =
    (report.samplesOf summary.peer).countP Sample.overloaded
  /-- The rate at the end is that of the last sample, if there is one. -/
  finalRate_eq : ∀ summary ∈ report.peers, summary.finalRate =
    (report.samplesOf summary.peer).getLast?.bind Sample.rate

end Report

namespace Trial

variable {policy : Policy} {capacities : List Float} {trial : Trial} {window : ℕ}
  {times : List ℕ}

/-- A trial whose flows are in lockstep has a regular report. -/
theorem Lockstep.regular (h : trial.Lockstep capacities.length window times)
    (hwired : trial.Wired policy capacities) :
    trial.report.Regular trial.roster capacities window := by
  have hlane : ∀ summary ∈ trial.report.peers, ∃ lane flow, summary = trial.summary lane ∧
      trial.roster.find? lane.link.peer = some lane.flow ∧
      trial.roster.flow? lane.flow = some flow ∧ flow.peer = lane.link.peer := by
    intro summary hsummary
    obtain ⟨lane, hmem, rfl⟩ := List.mem_map.mp hsummary
    obtain ⟨index, hindex⟩ := List.mem_iff_getElem?.mp hmem
    obtain ⟨flow, hflow, hpeer⟩ := hwired.flow?_lane hindex
    exact ⟨lane, flow, rfl, hwired.find?_lane hindex, hflow, hpeer⟩
  have hcount {peer : Peer} {id : FlowId} {flow : Flow}
      (hflow : trial.roster.flow? id = some flow) (hpeer : flow.peer = peer) :
      (trial.report.samplesOf peer).length = flow.windowsClosed.toNat := by
    rw [h.windowsClosed_eq id flow hflow, ← h.count_eq id flow hflow, hpeer]
    rfl
  exact {
    peers_eq := by
      apply List.ext_getElem?
      intro index
      have hwiring := congrArg (fun wirings => wirings[index]?.map fun wiring =>
        (wiring.1, wiring.2.2)) hwired.wiring_eq
      simpa [report, summary, Lane.wiring, Function.comp_def] using hwiring
    blocks := ⟨times, trial.blocks.reverse, rfl, h.blocks, h.spaced, fun _ _ => h.spaced.mul_le⟩
    windows_eq := fun summary hsummary => by
      obtain ⟨lane, flow, rfl, hfind, hflow, hpeer⟩ := hlane summary hsummary
      exact ⟨_, flow, hfind, hflow, hcount hflow hpeer⟩
    overloaded_eq := fun summary hsummary => by
      obtain ⟨lane, flow, rfl, -, hflow, hpeer⟩ := hlane summary hsummary
      have hroom : (trial.report.samplesOf lane.link.peer).countP Sample.overloaded < 2 ^ 64 :=
        (List.countP_le_length.trans_eq (hcount hflow hpeer)).trans_lt flow.windowsClosed.toNat_lt
      have hboth : (trial.samples.countP fun sample =>
          decide (sample.peer = lane.link.peer) && sample.overloaded) =
            (trial.report.samplesOf lane.link.peer).countP Sample.overloaded := by
        rw [Report.samplesOf, List.countP_filter]
        exact List.countP_congr fun _ _ => by rw [Bool.and_comm]
      exact (congrArg (fun count => (Nat.toUInt64 count).toNat) hboth).trans
        (Nat.mod_eq_of_lt hroom)
    finalRate_eq := fun summary hsummary => by
      obtain ⟨lane, flow, rfl, hfind, hflow, hpeer⟩ := hlane summary hsummary
      have hrate : (trial.summary lane).finalRate = flow.limit? := by
        simp only [Trial.summary, hfind, Option.bind_some, hflow]
      have hlatest := h.latest _ flow hflow
      rw [hpeer] at hlatest
      exact hrate.trans hlatest.symm }

end Trial

/-! ### Accepted settings -/

/-- A load that passed its check has a peer. -/
theorem LoadSettings.capacities_ne_nil {load : LoadSettings} (h : load.check = .ok ()) :
    load.capacities ≠ [] := by
  intro hnil
  simp only [check, hnil, List.isEmpty_nil, if_true] at h
  split_ifs at h

/-- A span that was made of milliseconds has so many milliseconds. -/
theorem Span.millis_ofMillis (millis : UInt64) : (Span.ofMillis millis).millis = millis := by
  have hlimit : millis.toNat ≤ wordLimit := Nat.le_pred_of_lt millis.toNat_lt
  have hwhole : (Span.ofMillis millis).nanos / nanosPerMilli = millis.toNat :=
    Nat.mul_div_cancel _ (by decide)
  rw [← UInt64.toNat_inj, Span.millis, toNat_saturate, hwhole, min_eq_left hlimit]

namespace Settings

variable {settings : Settings} {policy : Policy}

/-- **Every report is regular.** Accepted settings give a report, that of a run to its end, and at
every point of every run, whatever the order of its moves, the trial shows one summary for each
capacity and blocks of samples, one for each window that the flows closed. -/
theorem report_regular (hload : settings.load.check = .ok ())
    (hpolicy : settings.policy.policy = .ok policy) :
    let start := Trial.start settings.policy settings.load policy
    (∃ moves trial, start.run? moves = some trial ∧ trial.finished = true ∧
      settings.tryLoad = .ok trial.report) ∧
    ∀ moves trial, start.run? moves = some trial →
      trial.report.Regular trial.roster settings.load.capacities
        settings.policy.windowMs.toNat := by
  refine ⟨exists_tryLoad hload hpolicy, fun moves trial hrun => ?_⟩
  obtain ⟨times, hlockstep⟩ :=
    Trial.exists_lockstep (LoadSettings.capacities_ne_nil hload) hrun
  rw [PolicySettings.window_eq hpolicy, PolicySettings.window, Span.millis_ofMillis] at hlockstep
  exact hlockstep.regular (Trial.wired_run hrun)

/-- A second under two peers, in which two windows are closed. -/
theorem report_regular_two_windows :
    let settings : Settings := ⟨⟨0.9, 0.1, 5, 400⟩, ⟨2, [1, 2], 1, 1⟩, false, false⟩
    ∃ report roster, settings.tryLoad = .ok report ∧
      report.Regular roster settings.load.capacities 400 ∧
      report.samples.map (fun sample => (sample.elapsedMs, sample.peer)) =
        [(400, "peer-0"), (400, "peer-1"), (800, "peer-0"), (800, "peer-1")] := by
  intro settings
  have hsamples : settings.tryLoad.toOption.map
      (fun report => report.samples.map fun sample => (sample.elapsedMs, sample.peer)) =
        some [(400, "peer-0"), (400, "peer-1"), (800, "peer-0"), (800, "peer-1")] := by
    decide +kernel
  have haccepted : settings.policy.policy.toOption.isSome = true := by decide +kernel
  cases hpolicy : settings.policy.policy with
  | error fault =>
    rw [hpolicy] at haccepted
    cases haccepted
  | ok policy =>
    have hload : settings.load.check = .ok () :=
      (rfl : (⟨2, [1, 2], 1, 1⟩ : LoadSettings).check = .ok ())
    obtain ⟨⟨moves, trial, hrun, -, hreport⟩, hregular⟩ := report_regular hload hpolicy
    rw [hreport] at hsamples
    exact ⟨trial.report, trial.roster, hreport, hregular moves trial hrun,
      Option.some.inj hsamples⟩

end Settings

end FlowControl
