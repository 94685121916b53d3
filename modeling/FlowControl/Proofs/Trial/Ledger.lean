import FlowControl.Proofs.Course.Basic
import FlowControl.Proofs.Trial.Ends

/-!
# Ledgers

A ledger keeps what a trial did for one lane: which messages the peer took, which were dropped,
which acknowledgments were sent and heard, and what was counted in windows that are closed. At
every point of every run the counters of the lane and of its flow agree with the ledger.
-/

namespace FlowControl

/-- The lane that makes a move. -/
def Trial.Move.lane? : Trial.Move → Option ℕ
  | .offer index | .dispatch index | .process index | .hear index => some index
  | .check | .rest => none

/-- What a trial did for one lane. -/
structure Ledger where
  /-- The messages that found room, in the order in which they were sent. -/
  queued : List MessageId
  /-- The messages that found none, in the order in which they were sent. -/
  dropped : List MessageId
  /-- The messages that the peer acknowledged, in that order. -/
  emitted : List MessageId
  /-- The acknowledgments that the listener took, in that order. -/
  heard : List MessageId
  /-- The traffic that was counted in windows that are closed. -/
  closed : Direction → ℕ

namespace Ledger

open Trial (Move flowId flowId_injective flow?_count getElem?_withLane)

/-- Nothing was done. -/
def empty : Ledger := ⟨[], [], [], [], fun _ => 0⟩

/-- How many messages were sent. -/
def sent (ledger : Ledger) : ℕ := ledger.queued.length + ledger.dropped.length

/-- Enters a message that was handed to the link. -/
def send (ledger : Ledger) (message : MessageId) : Delivery → Ledger
  | .queued => { ledger with queued := ledger.queued ++ [message] }
  | .dropped => { ledger with dropped := ledger.dropped ++ [message] }

/-- Enters a move of the lane. -/
def enter (ledger : Ledger) (lane : Lane) (now : Moment) : Move → Ledger
  | .dispatch _ =>
    match lane.dispatch? now with
    | some (.ok delivery, _) => ledger.send lane.nextMessage delivery
    | _ => ledger
  | .process _ =>
    match lane.process? now with
    | some next =>
      { ledger with emitted := ledger.emitted ++ next.link.acks.drop lane.link.acks.length }
    | none => ledger
  | .hear _ => { ledger with heard := ledger.heard ++ lane.link.acks.take 1 }
  | .offer _ | .check | .rest => ledger

/-- Enters what the flow counted in a window, if the window was closed. -/
def close (ledger : Ledger) (before after : Flow) : Ledger :=
  if after.windowsClosed = before.windowsClosed then ledger
  else { ledger with
    closed := fun direction => ledger.closed direction + (before.meter direction).count.toNat }

/-- Enters what a move did for the lane with a number. -/
def record (ledger : Ledger) (index : ℕ) (trial : Trial) (move : Move) (next : Trial) : Ledger :=
  match trial.lanes[index]?, trial.roster.flow? (flowId index),
    next.roster.flow? (flowId index) with
  | some lane, some before, some after =>
    (if move.lane? = some index then ledger.enter lane trial.now move else ledger).close
      before after
  | _, _, _ => ledger

/-- The ledger of the lane with a number after more moves. -/
def follow (index : ℕ) (ledger : Ledger) (trial : Trial) : List Move → Ledger
  | [] => ledger
  | move :: moves =>
    match trial.act? move with
    | some next => follow index (ledger.record index trial move next) next moves
    | none => ledger

/-- The counters of a lane and its flow agree with a ledger. -/
structure Balances (ledger : Ledger) (lane : Lane) (flow : Flow) : Prop where
  stage_ne : lane.link.stage ≠ .stopped
  listens : lane.link.heard = true
  queued_eq : ledger.queued = ledger.emitted ++ lane.link.backlog
  emitted_eq : ledger.emitted = ledger.heard ++ lane.link.acks
  numbered : (ledger.queued ++ ledger.dropped).Perm ((List.range ledger.sent).map UInt64.ofNat)
  next_eq : lane.nextMessage = .ofNat ledger.sent
  queued : lane.link.queued = .ofNat ledger.queued.length
  dropped : lane.link.dropped = .ofNat ledger.dropped.length
  acknowledged : lane.acknowledged = .ofNat ledger.heard.length
  outgoing : ledger.sent < 2 ^ 64 →
    ledger.closed .outgoing + flow.outgoing.count.toNat = ledger.sent
  incoming : ledger.heard.length < 2 ^ 64 →
    ledger.closed .incoming + flow.incoming.count.toNat = ledger.heard.length

variable {ledger : Ledger} {lane : Lane} {flow : Flow} {policy : Policy} {index : ℕ}

/-! ### One lane -/

/-- Nothing is entered for a flow whose window was not closed. -/
theorem close_of_eq {before after : Flow} (h : after.windowsClosed = before.windowsClosed)
    (ledger : Ledger) : ledger.close before after = ledger := if_pos h

/-- One more entry is one more in the word that counts the entries. -/
theorem ofNat_length_append {α : Type} (items : List α) (item : α) :
    UInt64.ofNat (items ++ [item]).length = UInt64.ofNat items.length + 1 := by
  rw [List.length_append, List.length_singleton, UInt64.ofNat_add]
  rfl

/-- Counting one more event adds one to the count, as long as the count has room. -/
theorem count_record (meter : Meter) {total closed : ℕ} (hroom : total + 1 < 2 ^ 64)
    (h : closed + meter.count.toNat = total) :
    closed + (meter.record 1).count.toNat = total + 1 := by
  have hcount : (meter.record 1).count.toNat = meter.count.toNat + 1 := by
    rw [Meter.record, UInt64.toNat_add]
    exact Nat.mod_eq_of_lt (by rw [UInt64.toNat_one]; omega)
  omega

/-- A message that was handed to the link has the next number. -/
theorem Balances.numbered_send (h : ledger.Balances lane flow) (delivery : Delivery) :
    ((ledger.send lane.nextMessage delivery).queued ++
      (ledger.send lane.nextMessage delivery).dropped).Perm
        ((List.range (ledger.sent + 1)).map UInt64.ofNat) := by
  rw [List.range_succ, List.map_append, List.map_singleton, ← h.next_eq]
  have hnumbered := h.numbered.append_right [lane.nextMessage]
  cases delivery with
  | queued =>
    refine List.Perm.trans ?_ hnumbered
    simp only [send, List.append_assoc]
    exact List.perm_append_comm.append_left ledger.queued
  | dropped => simpa only [send, List.append_assoc] using hnumbered

/-- A message that is handed to the link is one more that was sent, whether it is held or
dropped. -/
theorem sent_send (message : MessageId) (delivery : Delivery) :
    (ledger.send message delivery).sent = ledger.sent + 1 := by
  cases delivery <;> simp [send, sent] <;> omega

/-- The peer has room for a message. -/
theorem Balances.queue (h : ledger.Balances lane flow) :
    (ledger.send lane.nextMessage .queued).Balances
      { lane with
        link := { lane.link with
          backlog := lane.link.backlog ++ [lane.nextMessage]
          queued := lane.link.queued + 1 }
        stage := .awaitingOffer
        nextMessage := lane.nextMessage + 1 } (flow.record .outgoing 1) where
  stage_ne := h.stage_ne
  listens := h.listens
  queued_eq := by
    change ledger.queued ++ [lane.nextMessage] = _
    rw [h.queued_eq, List.append_assoc]
    rfl
  emitted_eq := h.emitted_eq
  numbered := by
    rw [sent_send]
    exact h.numbered_send .queued
  next_eq := by
    rw [sent_send, UInt64.ofNat_add, ← h.next_eq]
    rfl
  queued := by
    change lane.link.queued + 1 = UInt64.ofNat (ledger.queued ++ [lane.nextMessage]).length
    rw [ofNat_length_append, h.queued]
  dropped := h.dropped
  acknowledged := h.acknowledged
  outgoing hroom := by
    rw [sent_send] at hroom ⊢
    exact count_record _ hroom (h.outgoing (by omega))
  incoming := h.incoming

/-- The peer has no room for a message. -/
theorem Balances.drop (h : ledger.Balances lane flow) :
    (ledger.send lane.nextMessage .dropped).Balances
      { lane with
        link := { lane.link with dropped := lane.link.dropped + 1 }
        stage := .awaitingOffer
        nextMessage := lane.nextMessage + 1 } (flow.record .outgoing 1) where
  stage_ne := h.stage_ne
  listens := h.listens
  queued_eq := h.queued_eq
  emitted_eq := h.emitted_eq
  numbered := by
    rw [sent_send]
    exact h.numbered_send .dropped
  next_eq := by
    rw [sent_send, UInt64.ofNat_add, ← h.next_eq]
    rfl
  queued := h.queued
  dropped := by
    change lane.link.dropped + 1 = UInt64.ofNat (ledger.dropped ++ [lane.nextMessage]).length
    rw [ofNat_length_append, h.dropped]
  acknowledged := h.acknowledged
  outgoing hroom := by
    rw [sent_send] at hroom ⊢
    exact count_record _ hroom (h.outgoing (by omega))
  incoming := h.incoming

/-- The peer acknowledges its oldest message. -/
theorem Balances.acknowledge (h : ledger.Balances lane flow) {message : MessageId}
    {rest : List MessageId} (hbacklog : lane.link.backlog = message :: rest) :
    { ledger with emitted := ledger.emitted ++ [message] : Ledger }.Balances
      { lane with
        link := { lane.link with
          backlog := rest
          acks := lane.link.acks ++ [message]
          stage := .awaitingTick } } flow :=
  { h with
    stage_ne := PeerStage.noConfusion
    queued_eq := by
      change ledger.queued = ledger.emitted ++ [message] ++ rest
      rw [h.queued_eq, hbacklog, List.append_assoc]
      rfl
    emitted_eq := by
      change ledger.emitted ++ [message] = ledger.heard ++ (lane.link.acks ++ [message])
      rw [← List.append_assoc, ← h.emitted_eq] }

/-- The listener takes the oldest acknowledgment. -/
theorem Balances.hear (h : ledger.Balances lane flow) {message : MessageId}
    {rest : List MessageId} (hacks : lane.link.acks = message :: rest) :
    { ledger with heard := ledger.heard ++ [message] : Ledger }.Balances
      { lane with
        link := { lane.link with acks := rest }
        acknowledged := lane.acknowledged + 1 } (flow.record .incoming 1) :=
  { h with
    emitted_eq := by
      change ledger.emitted = ledger.heard ++ [message] ++ rest
      rw [h.emitted_eq, hacks, List.append_assoc]
      rfl
    acknowledged := by
      change lane.acknowledged + 1 = UInt64.ofNat (ledger.heard ++ [message]).length
      rw [ofNat_length_append, h.acknowledged]
    outgoing := h.outgoing
    incoming := fun hroom => by
      change (ledger.heard ++ [message]).length < 2 ^ 64 at hroom
      change _ = (ledger.heard ++ [message]).length
      rw [List.length_append, List.length_singleton] at hroom ⊢
      exact count_record _ hroom (h.incoming (by omega)) }

/-- A verdict moves what a window counted into the ledger. -/
theorem Balances.judge (h : ledger.Balances lane flow) (policy : Policy) (now : UInt64) :
    (ledger.close flow (policy.judge now flow).1).Balances lane (policy.judge now flow).1 := by
  by_cases hdue : flow.isDue policy.window now = true
  · have hclosed : (flow.close now (policy.verdict flow)).windowsClosed ≠ flow.windowsClosed := by
      simp [Flow.close]
    rw [Policy.judge_of_isDue hdue, close, if_neg hclosed]
    exact { h with outgoing := h.outgoing, incoming := h.incoming }
  · rw [Policy.judge_of_not_isDue hdue, close_of_eq rfl]
    exact h

/-! ### All lanes -/

/-- The lane with a number balances. -/
def BalancesAt (ledger : Ledger) (index : ℕ) (trial : Trial) : Prop :=
  ∀ lane flow, trial.lanes[index]? = some lane →
    trial.roster.flow? (flowId index) = some flow → ledger.Balances lane flow

variable {capacities : List Float} {trial next last : Trial} {move : Move} {moves : List Move}

/-- What a move enters for a lane: the move itself if it is one of the lane, and then the window of
its flow if that was closed. -/
theorem record_eq {before after : Flow} (hlane : trial.lanes[index]? = some lane)
    (hbefore : trial.roster.flow? (flowId index) = some before)
    (hafter : next.roster.flow? (flowId index) = some after) :
    ledger.record index trial move next =
      (if move.lane? = some index then ledger.enter lane trial.now move else ledger).close
        before after := by
  rw [record, hlane, hbefore, hafter]

/-- A move of another lane leaves a lane and its flow alone, and a check judges the flow. -/
theorem acts_other (hwired : trial.Wired policy capacities) (hact : trial.Acts move next)
    (hother : move.lane? ≠ some index) :
    next.lanes[index]? = trial.lanes[index]? ∧
      (next.roster.flow? (flowId index) = trial.roster.flow? (flowId index) ∨
        ∃ now, next.roster.flow? (flowId index) =
          (trial.roster.flow? (flowId index)).map fun flow => (policy.judge now flow).1) := by
  have hlane {i : ℕ} {lane : Lane} (hlane : trial.lanes[i]? = some lane) (lane' : Lane)
      (hi : i ≠ index) : (trial.withLane i lane').lanes[index]? = trial.lanes[index]? := by
    rw [getElem?_withLane hlane, if_neg hi]
  have hflow {i : ℕ} {lane : Lane} (hlane : trial.lanes[i]? = some lane) (lane' : Lane)
      (direction : Direction) (hi : i ≠ index) :
      ((trial.withLane i lane').count lane.flow direction).roster.flow? (flowId index) =
        trial.roster.flow? (flowId index) := by
    rw [flow?_count, (hwired.wiring_lane hlane).2.1, if_neg fun h => hi (flowId_injective h).symm]
    rfl
  have hne {i : ℕ} (h : some i ≠ some index) : i ≠ index := fun heq => h (congrArg some heq)
  cases hact with
  | offer _ _ hi _ _ _ => exact ⟨hlane hi _ (hne hother), Or.inl rfl⟩
  | queue hi _ _ _ _ => exact ⟨hlane hi _ (hne hother), Or.inl (hflow hi _ _ (hne hother))⟩
  | drop hi _ _ _ _ => exact ⟨hlane hi _ (hne hother), Or.inl (hflow hi _ _ (hne hother))⟩
  | giveUp hi _ _ _ => exact ⟨hlane hi _ (hne hother), Or.inl rfl⟩
  | tick hi _ _ => exact ⟨hlane hi _ (hne hother), Or.inl rfl⟩
  | acknowledge hi _ _ _ => exact ⟨hlane hi _ (hne hother), Or.inl rfl⟩
  | hangUp hi _ _ => exact ⟨hlane hi _ (hne hother), Or.inl rfl⟩
  | hear hi _ => exact ⟨hlane hi _ (hne hother), Or.inl (hflow hi _ _ (hne hother))⟩
  | check _ => exact ⟨rfl, Or.inr ⟨_, hwired.flow?_judgeAll _ _⟩⟩
  | rest _ => exact ⟨rfl, Or.inl rfl⟩

/-- A lane balances after its move if what is entered balances with it and its flow. -/
theorem BalancesAt.of_enter (hwired : trial.Wired policy capacities)
    (h : ledger.BalancesAt index trial) (hlane : trial.lanes[index]? = some lane)
    (hown : move.lane? = some index) {lane' : Lane} {f : Flow → Flow}
    (hlane' : next.lanes[index]? = some lane')
    (hflow' : next.roster.flow? (flowId index) = (trial.roster.flow? (flowId index)).map f)
    (hclosed : ∀ flow, (f flow).windowsClosed = flow.windowsClosed)
    (hmove : ∀ flow, ledger.Balances lane flow →
      (ledger.enter lane trial.now move).Balances lane' (f flow)) :
    (ledger.record index trial move next).BalancesAt index next := by
  obtain ⟨flow, hflow⟩ := hwired.exists_flow hlane
  rw [hflow, Option.map_some] at hflow'
  rw [record_eq hlane hflow hflow', if_pos hown, close_of_eq (hclosed flow)]
  intro found after hfound hafter
  obtain rfl := Option.some.inj (hlane'.symm.trans hfound)
  obtain rfl := Option.some.inj (hflow'.symm.trans hafter)
  exact hmove flow (h lane flow hlane hflow)

/-- A lane that balances again after a move that counts nothing. -/
theorem BalancesAt.withLane (hwired : trial.Wired policy capacities)
    (h : ledger.BalancesAt index trial) (hlane : trial.lanes[index]? = some lane)
    (hown : move.lane? = some index) {lane' : Lane}
    (hmove : ∀ flow, ledger.Balances lane flow →
      (ledger.enter lane trial.now move).Balances lane' flow) :
    (ledger.record index trial move (trial.withLane index lane')).BalancesAt index
      (trial.withLane index lane') := by
  refine h.of_enter hwired hlane hown ?_ Option.map_id'.symm (fun _ => rfl) hmove
  rw [getElem?_withLane hlane, if_pos rfl]

/-- A lane that balances again after a move that counts a message or an acknowledgment. -/
theorem BalancesAt.withLane_count (hwired : trial.Wired policy capacities)
    (h : ledger.BalancesAt index trial) (hlane : trial.lanes[index]? = some lane)
    (hown : move.lane? = some index) {lane' : Lane} {direction : Direction}
    (hmove : ∀ flow, ledger.Balances lane flow →
      (ledger.enter lane trial.now move).Balances lane' (flow.record direction 1)) :
    (ledger.record index trial move ((trial.withLane index lane').count lane.flow
      direction)).BalancesAt index ((trial.withLane index lane').count lane.flow direction) := by
  refine h.of_enter hwired hlane hown ?_ ?_ (fun _ => Flow.record_windowsClosed 1) hmove
  · exact (getElem?_withLane hlane lane' index).trans (if_pos rfl)
  · rw [flow?_count, (hwired.wiring_lane hlane).2.1, if_pos rfl]
    rfl

/-- The move of a lane keeps its balance. -/
theorem BalancesAt.acts_own (hwired : trial.Wired policy capacities)
    (h : ledger.BalancesAt index trial) (hact : trial.Acts move next)
    (hown : move.lane? = some index) :
    (ledger.record index trial move next).BalancesAt index next := by
  cases hact with
  | offer _ _ hlane _ _ _ =>
    obtain rfl := Option.some.inj hown
    exact h.withLane hwired hlane hown fun flow hflow => { hflow with }
  | queue hlane hstage hopen hlink hroom =>
    obtain rfl := Option.some.inj hown
    refine h.withLane_count hwired hlane hown fun flow hflow => ?_
    simp only [enter, Lane.dispatch?, hstage, if_pos hopen, Link.send, if_neg hlink, if_pos hroom]
    exact hflow.queue
  | drop hlane hstage hopen hlink hfull =>
    obtain rfl := Option.some.inj hown
    refine h.withLane_count hwired hlane hown fun flow hflow => ?_
    simp only [enter, Lane.dispatch?, hstage, if_pos hopen, Link.send, if_neg hlink,
      if_neg hfull.not_gt]
    exact hflow.drop
  | giveUp hlane _ _ hlink =>
    obtain rfl := Option.some.inj hown
    obtain ⟨flow, hflow⟩ := hwired.exists_flow hlane
    exact absurd hlink (h _ flow hlane hflow).stage_ne
  | tick hlane hstage hdue =>
    obtain rfl := Option.some.inj hown
    refine h.withLane hwired hlane hown fun flow hflow => ?_
    simp only [enter, Lane.process?, Link.step?, hstage, if_pos hdue, Option.map_some,
      List.drop_length, List.append_nil]
    exact { hflow with stage_ne := PeerStage.noConfusion }
  | acknowledge hlane hstage hbacklog hheard =>
    obtain rfl := Option.some.inj hown
    refine h.withLane hwired hlane hown fun flow hflow => ?_
    simp only [enter, Lane.process?, Link.step?, hstage, hbacklog, if_pos hheard, Option.map_some,
      List.drop_left]
    exact hflow.acknowledge hbacklog
  | hangUp hlane _ hheard =>
    obtain rfl := Option.some.inj hown
    obtain ⟨flow, hflow⟩ := hwired.exists_flow hlane
    exact absurd (h _ flow hlane hflow).listens (by rw [hheard]; exact Bool.false_ne_true)
  | hear hlane hacks =>
    obtain rfl := Option.some.inj hown
    refine h.withLane_count hwired hlane hown fun flow hflow => ?_
    simp only [enter, hacks, List.take_succ_cons, List.take_zero]
    exact hflow.hear hacks
  | check _ => cases hown
  | rest _ => cases hown

/-- Every move keeps the balance of every lane. -/
theorem BalancesAt.acts (hwired : trial.Wired policy capacities)
    (h : ledger.BalancesAt index trial) (hact : trial.Acts move next) :
    (ledger.record index trial move next).BalancesAt index next := by
  by_cases hown : move.lane? = some index
  · exact h.acts_own hwired hact hown
  · intro lane after hlane hafter
    obtain ⟨hlanes, hflows⟩ := acts_other hwired hact hown
    rw [hlanes] at hlane
    obtain ⟨flow, hflow⟩ := hwired.exists_flow hlane
    rw [record_eq hlane hflow hafter, if_neg hown]
    rcases hflows with hsame | ⟨now, hjudged⟩
    · obtain rfl := Option.some.inj (hflow.symm.trans (hsame.symm.trans hafter))
      rw [close_of_eq rfl]
      exact h lane flow hlane hflow
    · rw [hjudged, hflow, Option.map_some] at hafter
      obtain rfl := Option.some.inj hafter
      exact (h lane flow hlane hflow).judge policy now

/-- Every run keeps the balance of every lane. -/
theorem BalancesAt.run (hwired : trial.Wired policy capacities)
    (h : ledger.BalancesAt index trial) (hrun : trial.run? moves = some last) :
    (ledger.follow index trial moves).BalancesAt index last := by
  induction moves generalizing trial ledger with
  | nil =>
    obtain rfl := Option.some.inj hrun
    exact h
  | cons move moves ih =>
    obtain ⟨next, hnext, hrest⟩ := Option.bind_eq_some_iff.mp hrun
    have hact := (Trial.acts_of_act? hnext).2
    rw [follow, hnext]
    exact ih (hwired.acts hact) (h.acts hwired hact) hrest

/-- A new trial balances. -/
theorem balancesAt_start (settings : PolicySettings) (load : LoadSettings) (policy : Policy)
    (index : ℕ) : empty.BalancesAt index (Trial.start settings load policy) := by
  intro lane flow hlane hflow
  obtain ⟨_, capacity, rfl⟩ := Trial.exists_newLane (List.mem_of_getElem? hlane)
  rw [Trial.flow?_start] at hflow
  split_ifs at hflow
  obtain rfl := Option.some.inj hflow
  exact {
    stage_ne := PeerStage.noConfusion
    listens := rfl
    queued_eq := rfl
    emitted_eq := rfl
    numbered := .refl _
    next_eq := rfl
    queued := rfl
    dropped := rfl
    acknowledged := rfl
    outgoing := fun _ => rfl
    incoming := fun _ => rfl }

/-! ### What the counters say -/

/-- The counters of a lane and its flow, as long as none of them has gone around: what the flow
counted is what was sent and acknowledged, nothing is acknowledged that was not taken before, and
a message that was dropped never is. -/
structure Accounts (ledger : Ledger) (lane : Lane) (flow : Flow) : Prop where
  outgoing : ledger.closed .outgoing + flow.outgoing.count.toNat =
    lane.link.queued.toNat + lane.link.dropped.toNat
  incoming : ledger.closed .incoming + flow.incoming.count.toNat = lane.acknowledged.toNat
  acknowledged_le : lane.acknowledged.toNat ≤ ledger.emitted.length
  emitted_le : ledger.emitted.length ≤ lane.link.queued.toNat
  queued : lane.link.queued.toNat = ledger.queued.length
  dropped : lane.link.dropped.toNat = ledger.dropped.length
  heard_prefix : ledger.heard <+: ledger.emitted
  emitted_prefix : ledger.emitted <+: ledger.queued
  unheard : ∀ message ∈ ledger.dropped, message ∉ ledger.emitted

/-- A number that fits a word is not wrapped around. -/
theorem toNat_ofNat_of_lt {n : ℕ} (h : n < 2 ^ 64) : (UInt64.ofNat n).toNat = n :=
  Nat.mod_eq_of_lt h

/-- Numbers of messages differ until they go around. -/
theorem Balances.nodup (h : ledger.Balances lane flow) (hsent : ledger.sent < 2 ^ 64) :
    (ledger.queued ++ ledger.dropped).Nodup := by
  refine h.numbered.nodup_iff.mpr (List.nodup_range.map_on fun i hi j hj heq => ?_)
  have hword {k : ℕ} (hk : k ∈ List.range ledger.sent) : (UInt64.ofNat k).toNat = k :=
    toNat_ofNat_of_lt ((List.mem_range.mp hk).trans hsent)
  rw [← hword hi, ← hword hj, heq]

/-- What balances, accounts for the counters. -/
theorem Balances.accounts (h : ledger.Balances lane flow) (hsent : ledger.sent < 2 ^ 64) :
    ledger.Accounts lane flow := by
  have hheard : ledger.heard <+: ledger.emitted := ⟨_, h.emitted_eq.symm⟩
  have hemitted : ledger.emitted <+: ledger.queued := ⟨_, h.queued_eq.symm⟩
  have hsum : ledger.queued.length + ledger.dropped.length = ledger.sent := rfl
  have hheard_le := hheard.length_le
  have hemitted_le := hemitted.length_le
  have hqueued : lane.link.queued.toNat = ledger.queued.length := by
    rw [h.queued, toNat_ofNat_of_lt (by omega)]
  have hdropped : lane.link.dropped.toNat = ledger.dropped.length := by
    rw [h.dropped, toNat_ofNat_of_lt (by omega)]
  have hacknowledged : lane.acknowledged.toNat = ledger.heard.length := by
    rw [h.acknowledged, toNat_ofNat_of_lt (by omega)]
  refine ⟨?_, ?_, ?_, ?_, hqueued, hdropped, hheard, hemitted, ?_⟩
  · rw [h.outgoing hsent, hqueued, hdropped, hsum]
  · rw [h.incoming (by omega), hacknowledged]
  · rwa [hacknowledged]
  · rwa [hqueued]
  · intro message hmem hmem'
    exact List.disjoint_of_nodup_append (h.nodup hsent) (hemitted.subset hmem') hmem

/-! ### How much is sent -/

/-- To close a window enters no message. -/
theorem sent_close (before after : Flow) : (ledger.close before after).sent = ledger.sent := by
  unfold close
  split_ifs <;> rfl

/-- A move sends at most one message. -/
theorem sent_enter_le (lane : Lane) (now : Moment) (move : Move) :
    (ledger.enter lane now move).sent ≤ ledger.sent + 1 := by
  cases move with
  | dispatch _ =>
    simp only [enter]
    split
    · exact (sent_send _ _).le
    · exact Nat.le_succ _
  | process _ =>
    simp only [enter]
    split <;> exact Nat.le_succ _
  | _ => exact Nat.le_succ _

/-- A move enters one message for a lane at most. -/
theorem sent_record_le (ledger : Ledger) (index : ℕ) (trial : Trial) (move : Move)
    (next : Trial) :
    (ledger.record index trial move next).sent ≤ ledger.sent + 1 := by
  unfold record
  split
  · rw [sent_close]
    split_ifs
    · exact sent_enter_le _ _ _
    · exact Nat.le_succ _
  · exact Nat.le_succ _

/-- A run sends no more messages than it has moves. -/
theorem sent_follow_le (index : ℕ) (ledger : Ledger) (trial : Trial) (moves : List Move) :
    (ledger.follow index trial moves).sent ≤ ledger.sent + moves.length := by
  induction moves generalizing ledger trial with
  | nil => exact le_rfl
  | cons move moves ih =>
    rw [follow, List.length_cons]
    split
    · next next _ =>
      have hrecord := sent_record_le ledger index trial move next
      have hrest := ih (ledger.record index trial move next) next
      omega
    · omega

end Ledger

namespace Trial

variable {settings : PolicySettings} {load : LoadSettings} {policy : Policy} {trial : Trial}
  {moves : List Move} {index : ℕ} {lane : Lane}

/-- The ledger of the lane with a number after a run. -/
def ledger (start : Trial) (index : ℕ) (moves : List Move) : Ledger :=
  Ledger.empty.follow index start moves

/-- A run sends fewer messages than a trial can make moves. -/
theorem sent_lt_moveLimit (hrun : (start settings load policy).run? moves = some trial)
    (index : ℕ) :
    ((start settings load policy).ledger index moves).sent <
      (start settings load policy).moveLimit := by
  have hsent := Ledger.sent_follow_le index .empty (start settings load policy) moves
  rw [show Ledger.empty.sent = 0 from rfl, zero_add] at hsent
  exact hsent.trans_lt (length_lt_moveLimit hrun)

/-- **Every lane accounts for its traffic at every point of every run.** -/
theorem exists_accounts (hrun : (start settings load policy).run? moves = some trial)
    (hlane : trial.lanes[index]? = some lane)
    (hsent : ((start settings load policy).ledger index moves).sent < 2 ^ 64) :
    ∃ flow, trial.roster.find? lane.link.peer = some lane.flow ∧
      trial.roster.flow? lane.flow = some flow ∧
      ((start settings load policy).ledger index moves).Accounts lane flow := by
  have hwired := wired_run hrun
  obtain ⟨flow, hflow, -⟩ := hwired.flow?_lane hlane
  have hid := (hwired.wiring_lane hlane).2.1
  have hbalances := (Ledger.balancesAt_start settings load policy index).run
    (wired_start settings load policy) hrun
  exact ⟨flow, hwired.find?_lane hlane, hflow,
    (hbalances lane flow hlane (hid ▸ hflow)).accounts hsent⟩

end Trial

namespace Settings

open Trial (Move)

variable {settings : Settings} {policy : Policy}

/-- **Traffic is accounted for.** Accepted settings give a report, that of a run to its end. And at
every point of every run, whatever the order of its moves, what the flow of a lane counted is what
its link queued and dropped and what its listener took, the listener took no more than the peer
acknowledged and the peer acknowledged no more than was queued, as long as less than `2 ^ 64`
messages are sent. So the report shows no more acknowledged than queued, and what it shows as
dropped was sent and is never acknowledged. -/
theorem traffic_balances (hload : settings.load.check = .ok ())
    (hpolicy : settings.policy.policy = .ok policy) :
    let start := Trial.start settings.policy settings.load policy
    (∃ moves trial, start.run? moves = some trial ∧ trial.finished = true ∧
      settings.tryLoad = .ok trial.report) ∧
    ∀ moves trial, start.run? moves = some trial →
      ∀ index, (start.ledger index moves).sent < 2 ^ 64 →
        (∀ lane, trial.lanes[index]? = some lane →
          ∃ flow, trial.roster.find? lane.link.peer = some lane.flow ∧
            trial.roster.flow? lane.flow = some flow ∧
            (start.ledger index moves).Accounts lane flow) ∧
        ∀ summary, trial.report.peers[index]? = some summary →
          summary.acknowledged ≤ summary.queued ∧
          summary.queued.toNat + summary.dropped.toNat = (start.ledger index moves).sent ∧
          summary.dropped.toNat = (start.ledger index moves).dropped.length ∧
          ∀ message ∈ (start.ledger index moves).dropped,
            message ∉ (start.ledger index moves).heard := by
  intro start
  refine ⟨exists_tryLoad hload hpolicy, fun moves trial hrun index hsent => ⟨?_, ?_⟩⟩
  · exact fun lane hlane => Trial.exists_accounts hrun hlane hsent
  · intro summary hsummary
    rw [Trial.report, List.getElem?_map, Option.map_eq_some_iff] at hsummary
    obtain ⟨lane, hlane, rfl⟩ := hsummary
    obtain ⟨flow, -, -, haccounts⟩ := Trial.exists_accounts hrun hlane hsent
    refine ⟨?_, ?_, haccounts.dropped, ?_⟩
    · exact UInt64.le_iff_toNat_le.mpr (haccounts.acknowledged_le.trans haccounts.emitted_le)
    · exact congrArg₂ (· + ·) haccounts.queued haccounts.dropped
    · exact fun message hmem hheard =>
        haccounts.unheard message hmem (haccounts.heard_prefix.subset hheard)

/-- The standard settings are accepted, and no run under them is so long that a counter could go
around. -/
theorem traffic_balances_standard :
    ∃ report, standard.tryLoad = .ok report ∧
      ∀ policy, standard.policy.policy = .ok policy → ∀ moves trial,
        (Trial.start standard.policy standard.load policy).run? moves = some trial →
        ∀ summary ∈ trial.report.peers, summary.acknowledged ≤ summary.queued := by
  have hload : standard.load.check = .ok () := rfl
  have hshort {policy : Policy} (hpolicy : standard.policy.policy = .ok policy) :
      (Trial.start standard.policy standard.load policy).moveLimit < 2 ^ 64 := by
    have hdeadline : (Trial.start standard.policy standard.load policy).deadline =
        standard.load.duration.nanos := rfl
    have hchecks : (Trial.start standard.policy standard.load policy).checks.period =
        (Trial.checkPeriod policy.window).nanos := rfl
    rw [Trial.moveLimit, hdeadline, hchecks, Trial.lanes_start, List.length_mapIdx,
      PolicySettings.window_eq hpolicy]
    decide +kernel
  have hle {policy : Policy} (hpolicy : standard.policy.policy = .ok policy) {moves : List Move}
      {trial : Trial}
      (hrun : (Trial.start standard.policy standard.load policy).run? moves = some trial) :
      ∀ summary ∈ trial.report.peers, summary.acknowledged ≤ summary.queued := by
    intro summary hsummary
    obtain ⟨index, hindex⟩ := List.mem_iff_getElem?.mp hsummary
    have hsent := (Trial.sent_lt_moveLimit hrun index).trans (hshort hpolicy)
    exact (((traffic_balances hload hpolicy).2 moves trial hrun index hsent).2 summary hindex).1
  have haccepted : standard.policy.policy.toOption.isSome = true := by decide +kernel
  cases hpolicy : standard.policy.policy with
  | error fault =>
    rw [hpolicy] at haccepted
    cases haccepted
  | ok policy =>
    obtain ⟨_, trial, -, -, hreport⟩ := (traffic_balances hload hpolicy).1
    refine ⟨trial.report, hreport, ?_⟩
    rintro _ ⟨⟩ moves last hrun
    exact hle hpolicy hrun

end Settings

end FlowControl
