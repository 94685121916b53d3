import FlowControl.Proofs.Json.Finite
import FlowControl.Proofs.Pacing.Period
import FlowControl.Proofs.Trial.Wiring
import Mathlib.Algebra.Order.BigOperators.Group.List
import Mathlib.Tactic.Ring

/-!
# Every trial ends

Between two moves of the clock timers catch up, and each of their ticks is followed by few moves.
The clock moves by whole milliseconds, and no farther than to the check after the deadline. So there
is an account of what a trial can still do which every move draws on, whatever the order of the
moves, and a trial that is completed is over.
-/

namespace FlowControl

namespace Moment

variable {moment later : Moment}

/-- A timer does not fire before its moment. -/
theorem le_fires (moment : Moment) : moment ≤ fires moment := by
  unfold Moment at *
  unfold fires nanosPerMilli
  omega

/-- Timers fire on whole milliseconds. -/
theorem dvd_fires (moment : Moment) : nanosPerMilli ∣ fires moment := Dvd.intro_left _ rfl

/-- A timer that is set for later does not fire earlier. -/
theorem fires_mono (h : moment ≤ later) : fires moment ≤ fires later :=
  Nat.mul_le_mul_right _ (Nat.div_le_div_right (Nat.add_le_add_right h _))

/-- A timer fires within a millisecond. -/
theorem fires_div_le (moment : Moment) :
    fires moment / nanosPerMilli ≤ moment / nanosPerMilli + 1 := by
  unfold Moment at *
  unfold fires nanosPerMilli
  omega

end Moment

namespace Ticker

variable {ticker : Ticker} {now : Moment} {unit : ℕ}

/-- How many ticks of a timer with at least such a period can be due. -/
def ticksLeft (unit : ℕ) (ticker : Ticker) (now : Moment) : ℕ :=
  if now < ticker.deadline then 0
  else if ticker.deadline + slack < now then 1
  else (now - ticker.deadline) / unit + 1

/-- A tick that can fire was due before now, or is due now. -/
theorem deadline_le_of_isDue (h : ticker.isDue now = true) : ticker.deadline ≤ now :=
  (Moment.le_fires _).trans (of_decide_eq_true h)

/-- A timer that is not too late catches up within the slack, and one that is starts anew. -/
theorem ticksLeft_le (unit : ℕ) (ticker : Ticker) (now : Moment) :
    ticker.ticksLeft unit now ≤ slack / unit + 1 := by
  unfold ticksLeft
  split_ifs with hearly hlate
  · exact Nat.zero_le _
  · exact Nat.le_add_left _ _
  · have hslack : now - ticker.deadline ≤ slack :=
      Nat.sub_le_iff_le_add'.mpr (not_lt.mp hlate)
    exact Nat.add_le_add_right (Nat.div_le_div_right hslack) 1

/-- Each tick uses up one of those that are left. -/
theorem ticksLeft_tick (hunit : 0 < unit) (hperiod : unit ≤ ticker.period)
    (hdue : ticker.isDue now = true) :
    (ticker.tick now).ticksLeft unit now + 1 ≤ ticker.ticksLeft unit now := by
  have hle := deadline_le_of_isDue hdue
  obtain ⟨period, deadline⟩ := ticker
  unfold Moment at *
  dsimp only at hperiod hle
  unfold tick ticksLeft
  dsimp only
  by_cases hlate : deadline + slack < now
  · have hnext : now < now + period := by omega
    simp only [if_pos hlate, if_pos hnext, if_neg (not_lt.mpr hle)]
    exact le_rfl
  · by_cases hnext : now < deadline + period
    · simp only [if_neg hlate, if_pos hnext, if_neg (not_lt.mpr hle)]
      exact Nat.le_add_left _ _
    · have hless : (now - (deadline + period)) / unit + 1 ≤ (now - deadline) / unit := by
        rw [← Nat.add_div_right _ hunit]
        exact Nat.div_le_div_right (by omega)
      have hslack : ¬ deadline + period + slack < now := by omega
      simp only [if_neg hlate, if_neg hnext, if_neg (not_lt.mpr hle), if_neg hslack]
      omega

/-- A tick leaves the period of a timer as it is. -/
@[simp] theorem tick_period : (ticker.tick now).period = ticker.period := by
  unfold tick
  split <;> rfl

/-- A tick sets a timer that is not overdue so that it is not overdue again. -/
theorem le_wakes_tick (h : now ≤ ticker.wakes) : now ≤ (ticker.tick now).wakes := by
  unfold tick
  split_ifs
  · exact (Nat.le_add_right _ _).trans (Moment.le_fires _)
  · exact h.trans (Moment.fires_mono (Nat.le_add_right _ _))

/-- After a tick that is due the timer is set to a period from now at most. -/
theorem tick_deadline_le (hdue : ticker.isDue now = true) :
    (ticker.tick now).deadline ≤ now + ticker.period := by
  have hle := deadline_le_of_isDue hdue
  unfold tick
  split_ifs
  · exact le_rfl
  · exact Nat.add_le_add_right hle _

end Ticker

open Pacing (shortest)

namespace Lane

/-- How many moves a lane can make until the clock moves: two after each tick of the sender and
three after each tick of the peer, the last of which takes the acknowledgment. -/
def movesLeft (lane : Lane) (now : Moment) : ℕ :=
  2 * lane.offers.ticksLeft shortest now +
    (if lane.stage = .awaitingOffer ∨ lane.stage = .stopped then 0 else 1) +
    3 * lane.link.ticker.ticksLeft shortest now +
    (if lane.link.stage = .awaitingMessage then 2 else 0) + lane.link.acks.length

/-- The periods of a lane are those of a load, and a slot opens at a whole millisecond. -/
structure Ticks (lane : Lane) : Prop where
  offers : shortest ≤ lane.offers.period
  ticker : shortest ≤ lane.link.ticker.period
  opens : ∀ opens, lane.stage = .awaitingSlot opens → nanosPerMilli ∣ opens

/-- More moves than a lane makes from one move of the clock to the next. -/
def movesPerRest : ℕ := 65536

/-- When nobody has to be heard, a lane is done after the ticks that can be due. -/
theorem movesLeft_le {lane : Lane} (now : Moment) (hacks : lane.link.acks = []) :
    lane.movesLeft now ≤ movesPerRest := by
  have hoffers := lane.offers.ticksLeft_le shortest now
  have hticks := lane.link.ticker.ticksLeft_le shortest now
  have hmost : Ticker.slack / shortest + 1 = 5001 := by decide
  rw [hmost] at hoffers hticks
  unfold movesLeft movesPerRest
  rw [hacks, List.length_nil]
  split_ifs <;> omega

/-- The timers of a new lane have the periods of loads, and its sender holds no slot. -/
theorem ticks_start (peer : Peer) (capacity : Float) (flow : FlowId) (load : LoadSettings)
    (now : Moment) : (Lane.start peer capacity flow load now).Ticks where
  offers := Pacing.le_period _
  ticker := Pacing.le_period _
  opens _ h := by cases h

end Lane

namespace Trial

variable {trial next last : Trial} {move : Move} {moves : List Move} {index : ℕ}
  {lane lane' : Lane}

/-- How far a trial is from its end. -/
structure Timely (trial : Trial) : Prop where
  lanes : ∀ lane ∈ trial.lanes, lane.Ticks
  checks : nanosPerMilli ≤ trial.checks.period
  now_dvd : nanosPerMilli ∣ trial.now
  now_le : trial.now ≤ trial.checks.wakes
  deadline_le : trial.finished = false →
    trial.checks.deadline ≤ trial.deadline + trial.checks.period

/-- How many moves are left until the clock moves. -/
def movesLeft (trial : Trial) : ℕ :=
  (trial.lanes.map (·.movesLeft trial.now)).sum + trial.checks.ticksLeft nanosPerMilli trial.now

/-- More moves than there are from one move of the clock to the next. -/
def movesPerRest (trial : Trial) : ℕ := trial.lanes.length * Lane.movesPerRest + 16

/-- How many times the clock can still move. -/
def restsLeft (trial : Trial) : ℕ :=
  (trial.deadline + trial.checks.period) / nanosPerMilli + 1 - trial.now / nanosPerMilli

/-- More moves than a trial can still make. -/
def account (trial : Trial) : ℕ := trial.restsLeft * trial.movesPerRest + trial.movesLeft

/-! ### The clock moves on -/

/-- The clock moves to a moment for which somebody waits. -/
theorem nextWake_mem (trial : Trial) : trial.nextWake = trial.checks.wakes ∨
    ∃ lane ∈ trial.lanes,
      trial.nextWake ∈ lane.senderWakes ∨ lane.link.wakes? = some trial.nextWake := by
  have hfold (moment : Moment) (moments : List Moment) :
      moments.foldl min moment ∈ moment :: moments := by
    induction moments generalizing moment with
    | nil => exact List.mem_singleton_self _
    | cons first moments ih =>
      rcases List.mem_cons.mp (ih (min moment first)) with hfirst | hrest
      · rw [List.foldl_cons, hfirst]
        rcases min_choice moment first with hmin | hmin <;> simp [hmin]
      · exact List.mem_cons_of_mem _ (List.mem_cons_of_mem _ hrest)
  rcases List.mem_cons.mp (hfold trial.checks.wakes _) with hchecks | hlanes
  · exact Or.inl hchecks
  · obtain ⟨lane, hlane, hmem⟩ := List.mem_flatMap.mp hlanes
    exact Or.inr ⟨lane, hlane, by simpa [nextWake] using hmem⟩

/-- The clock does not pass a check. -/
theorem nextWake_le (trial : Trial) : trial.nextWake ≤ trial.checks.wakes := by
  have hfold (moment : Moment) (moments : List Moment) : moments.foldl min moment ≤ moment := by
    induction moments generalizing moment with
    | nil => exact le_rfl
    | cons first moments ih => exact (ih (min moment first)).trans (min_le_left _ _)
  exact hfold _ _

/-- When nobody can move, no timer is due and no acknowledgment waits. -/
structure Idle (trial : Trial) : Prop where
  checks : trial.now < trial.checks.wakes
  lanes : ∀ lane ∈ trial.lanes, (∀ moment ∈ lane.senderWakes, trial.now < moment) ∧
    (∀ moment, lane.link.wakes? = some moment → trial.now < moment) ∧ lane.link.acks = []

/-- What a lane can do is among the moves that are tried before the clock moves on. -/
theorem mem_busyMoves (h : trial.lanes[index]? = some lane) {move : Move}
    (hmove : move ∈ laneMoves index) : move ∈ trial.busyMoves := by
  refine List.mem_append_left _ (List.mem_flatMap.mpr ⟨index, ?_, hmove⟩)
  exact List.mem_range.mpr (List.getElem?_eq_some_iff.mp h).1

/-- The clock moves on only when nobody else can. -/
theorem idle_of_busy (hidle : ∀ move ∈ trial.busyMoves, trial.actBusy? move = none) :
    trial.Idle where
  checks := by
    have hcheck := hidle .check (List.mem_append_right _ (List.mem_singleton_self _))
    simp only [actBusy?, check?, ite_eq_right_iff] at hcheck
    by_contra hdue
    exact Option.some_ne_none _ (hcheck (decide_eq_true (not_lt.mp hdue)))
  lanes lane hmem := by
    obtain ⟨index, hlane⟩ := List.mem_iff_getElem?.mp hmem
    have hnone (move : Move) (hmove : move ∈ laneMoves index) : trial.actBusy? move = none :=
      hidle move (mem_busyMoves hlane hmove)
    refine ⟨?_, ?_, ?_⟩
    · intro moment hmoment
      by_contra hdue
      unfold Lane.senderWakes at hmoment
      split at hmoment
      · next hstage =>
        obtain rfl := List.mem_singleton.mp hmoment
        have hoffer := hnone (.offer index) (by simp [laneMoves])
        simp [actBusy?, offer?, hlane, Lane.offer?, hstage, Ticker.isDue, not_lt.mp hdue] at hoffer
      · next hstage =>
        obtain rfl := List.mem_singleton.mp hmoment
        have hdispatch := hnone (.dispatch index) (by simp [laneMoves])
        simp only [actBusy?, dispatch?, hlane, Lane.dispatch?, hstage, if_pos (not_lt.mp hdue),
          Option.bind_eq_bind, Option.bind_some] at hdispatch
        split at hdispatch <;> simp at hdispatch
      · exact absurd hmoment List.not_mem_nil
    · intro moment hmoment
      by_contra hdue
      unfold Link.wakes? at hmoment
      split at hmoment
      · next hstage =>
        obtain rfl := Option.some.inj hmoment
        have hprocess := hnone (.process index) (by simp [laneMoves])
        simp [actBusy?, process?, hlane, Lane.process?, Link.step?, hstage, Ticker.isDue,
          not_lt.mp hdue] at hprocess
      · exact absurd hmoment.symm (Option.some_ne_none _)
      · exact absurd hmoment.symm (Option.some_ne_none _)
    · have hhear := hnone (.hear index) (by simp [laneMoves])
      cases hacks : lane.link.acks with
      | nil => rfl
      | cons => simp [actBusy?, hear?, hlane, Lane.hear?, hacks] at hhear

/-- When nobody can move, everybody wakes later than now. -/
theorem Idle.lt_nextWake (h : trial.Idle) : trial.now < trial.nextWake := by
  rcases trial.nextWake_mem with hchecks | ⟨lane, hmem, hsender | hlink⟩
  · rw [hchecks]
    exact h.checks
  · exact (h.lanes lane hmem).1 _ hsender
  · exact (h.lanes lane hmem).2.1 _ hlink

/-- The clock stands at whole milliseconds. -/
theorem Timely.dvd_nextWake (h : trial.Timely) : nanosPerMilli ∣ trial.nextWake := by
  rcases trial.nextWake_mem with hchecks | ⟨lane, hmem, hsender | hlink⟩
  · rw [hchecks]
    exact Moment.dvd_fires _
  · unfold Lane.senderWakes at hsender
    split at hsender
    · rw [List.mem_singleton.mp hsender]
      exact Moment.dvd_fires _
    · next hstage =>
      rw [List.mem_singleton.mp hsender]
      exact (h.lanes lane hmem).opens _ hstage
    · exact absurd hsender List.not_mem_nil
  · unfold Link.wakes? at hlink
    split at hlink
    · rw [← Option.some.inj hlink]
      exact Moment.dvd_fires _
    · exact absurd hlink.symm (Option.some_ne_none _)
    · exact absurd hlink.symm (Option.some_ne_none _)

/-! ### Moves keep a trial timely -/

/-- A trial starts at a whole millisecond, before its deadline, with timers that tick. -/
theorem timely_start (settings : PolicySettings) (load : LoadSettings) (policy : Policy) :
    (start settings load policy).Timely where
  lanes lane hmem := by
    obtain ⟨index, capacity, rfl⟩ := exists_newLane hmem
    exact Lane.ticks_start _ _ _ _ _
  checks := by
    change nanosPerMilli ≤ (checkPeriod policy.window).nanos
    rw [checkPeriod, Span.nanos_max]
    exact le_max_right _ _
  now_dvd := dvd_zero _
  now_le := Nat.zero_le _
  deadline_le _ := Nat.zero_le _

/-- A lane that keeps its periods is replaced. -/
theorem Timely.withLane (h : trial.Timely) (hticks : lane'.Ticks) :
    (trial.withLane index lane').Timely where
  lanes lane hmem := (List.mem_or_eq_of_mem_set hmem).elim (h.lanes lane) fun heq => heq ▸ hticks
  checks := h.checks
  now_dvd := h.now_dvd
  now_le := h.now_le
  deadline_le := h.deadline_le

/-- To count traffic brings a trial no nearer to its end and takes it no farther from there. -/
theorem Timely.count (h : trial.Timely) (id : FlowId) (direction : Direction) :
    (trial.count id direction).Timely := ⟨h.lanes, h.checks, h.now_dvd, h.now_le, h.deadline_le⟩

/-- A check takes place on time, so the next one is not overdue. -/
theorem Timely.checked (h : trial.Timely) (hdue : trial.checks.isDue trial.now = true) :
    trial.checked.Timely where
  lanes := h.lanes
  checks := h.checks.trans_eq Ticker.tick_period.symm
  now_dvd := h.now_dvd
  now_le := Ticker.le_wakes_tick h.now_le
  deadline_le hopen := by
    have hbefore : trial.now < trial.deadline := not_le.mp (of_decide_eq_false hopen)
    change (trial.checks.tick trial.now).deadline ≤
      trial.deadline + (trial.checks.tick trial.now).period
    rw [Ticker.tick_period]
    exact (Ticker.tick_deadline_le hdue).trans (Nat.add_le_add_right hbefore.le _)

/-- Every move keeps a trial timely. -/
theorem Timely.acts (h : trial.Timely) (hact : trial.Acts move next) : next.Timely := by
  have hticks {index : ℕ} {lane : Lane} (hlane : trial.lanes[index]? = some lane) : lane.Ticks :=
    h.lanes lane (List.mem_of_getElem? hlane)
  cases hact with
  | offer pacer opens hlane _ _ hopens =>
    obtain ⟨hoffers, hticker, -⟩ := hticks hlane
    refine h.withLane ⟨hoffers.trans_eq Ticker.tick_period.symm, hticker, ?_⟩
    rintro _ ⟨⟩
    rcases hopens with rfl | ⟨moment, rfl⟩
    · exact h.now_dvd
    · exact Moment.dvd_fires _
  | queue hlane _ _ _ _ =>
    obtain ⟨hoffers, hticker, -⟩ := hticks hlane
    refine Timely.count (h.withLane ?_) _ _
    exact ⟨hoffers, hticker, fun _ hopens => SenderStage.noConfusion hopens⟩
  | drop hlane _ _ _ _ =>
    obtain ⟨hoffers, hticker, -⟩ := hticks hlane
    refine Timely.count (h.withLane ?_) _ _
    exact ⟨hoffers, hticker, fun _ hopens => SenderStage.noConfusion hopens⟩
  | giveUp hlane _ _ _ =>
    obtain ⟨hoffers, hticker, -⟩ := hticks hlane
    exact h.withLane ⟨hoffers, hticker, fun _ hopens => SenderStage.noConfusion hopens⟩
  | tick hlane _ _ =>
    obtain ⟨hoffers, hticker, hopens⟩ := hticks hlane
    exact h.withLane ⟨hoffers, hticker.trans_eq Ticker.tick_period.symm, hopens⟩
  | acknowledge hlane _ _ _ =>
    obtain ⟨hoffers, hticker, hopens⟩ := hticks hlane
    exact h.withLane ⟨hoffers, hticker, hopens⟩
  | hangUp hlane _ _ =>
    obtain ⟨hoffers, hticker, hopens⟩ := hticks hlane
    exact h.withLane ⟨hoffers, hticker, hopens⟩
  | hear hlane _ =>
    obtain ⟨hoffers, hticker, hopens⟩ := hticks hlane
    refine Timely.count (h.withLane ?_) _ _
    exact ⟨hoffers, hticker, hopens⟩
  | check hdue => exact h.checked hdue
  | rest _ => exact ⟨h.lanes, h.checks, h.dvd_nextWake, trial.nextWake_le, h.deadline_le⟩

/-! ### Moves draw on the account -/

/-- Counting traffic is no move of its own. -/
theorem account_count (trial : Trial) (id : FlowId) (direction : Direction) :
    (trial.count id direction).account = trial.account := rfl

/-- Where one item of a list is replaced, a sum over the list loses what the old item adds and gets
what the new one does. -/
theorem sum_set_map {α : Type} (f : α → ℕ) {items : List α} {index : ℕ} {item : α} (new : α)
    (h : items[index]? = some item) :
    ((items.set index new).map f).sum + f item = (items.map f).sum + f new := by
  induction items generalizing index with
  | nil => exact absurd h.symm (Option.some_ne_none _)
  | cons first items ih =>
    cases index with
    | zero =>
      obtain rfl := Option.some.inj h
      simp only [List.set_cons_zero, List.map_cons, List.sum_cons]
      omega
    | succ index =>
      have hrest := ih h
      simp only [List.set_cons_succ, List.map_cons, List.sum_cons]
      omega

/-- A move that a lane had left draws on the account. -/
theorem account_withLane (hlane : trial.lanes[index]? = some lane)
    (hless : lane'.movesLeft trial.now + 1 ≤ lane.movesLeft trial.now) :
    (trial.withLane index lane').account + 1 ≤ trial.account := by
  have hsum := sum_set_map (·.movesLeft trial.now) lane' hlane
  have hmoves : (trial.withLane index lane').movesLeft + 1 ≤ trial.movesLeft := by
    unfold movesLeft Trial.withLane
    dsimp only at hsum ⊢
    omega
  have hrests : (trial.withLane index lane').restsLeft = trial.restsLeft := rfl
  have hlength : (trial.withLane index lane').movesPerRest = trial.movesPerRest := by
    simp [movesPerRest, Trial.withLane]
  unfold account
  rw [hrests, hlength]
  omega

/-- The check draws on the account. -/
theorem Timely.account_checked (h : trial.Timely)
    (hdue : trial.checks.isDue trial.now = true) : trial.checked.account + 1 ≤ trial.account := by
  have hticks := Ticker.ticksLeft_tick (by decide) h.checks hdue
  have hrests : trial.checked.restsLeft = trial.restsLeft := by
    unfold restsLeft
    rw [checked_deadline, checked_checks, checked_now, Ticker.tick_period]
  have hlength : trial.checked.movesPerRest = trial.movesPerRest := by
    unfold movesPerRest
    rw [checked_lanes]
  have hmoves : trial.checked.movesLeft + 1 ≤ trial.movesLeft := by
    unfold movesLeft
    rw [checked_lanes, checked_checks, checked_now, Nat.add_assoc]
    exact Nat.add_le_add_left hticks _
  unfold account
  rw [hrests, hlength]
  omega

/-- When nobody has to be heard, all are done after the ticks that can be due. -/
theorem movesLeft_lt (h : ∀ lane ∈ trial.lanes, lane.link.acks = []) :
    trial.movesLeft < trial.movesPerRest := by
  have hlanes :
      (trial.lanes.map (·.movesLeft trial.now)).sum ≤ trial.lanes.length * Lane.movesPerRest := by
    have hsum := List.sum_le_card_nsmul (trial.lanes.map (·.movesLeft trial.now))
      Lane.movesPerRest ?_
    · simpa using hsum
    · intro moves hmoves
      obtain ⟨lane, hlane, rfl⟩ := List.mem_map.mp hmoves
      exact lane.movesLeft_le _ (h lane hlane)
  have hchecks := trial.checks.ticksLeft_le nanosPerMilli trial.now
  have hmost : Ticker.slack / nanosPerMilli + 1 = 6 := by decide
  unfold movesLeft movesPerRest
  omega

/-- The move of the clock draws on the account, for all that can be due then. -/
theorem Timely.account_rest (h : trial.Timely) (hopen : trial.finished = false)
    (hidle : trial.Idle) : ({ trial with now := trial.nextWake } : Trial).account + 1 ≤
      trial.account := by
  set next : Trial := { trial with now := trial.nextWake }
  have hrests : next.restsLeft + 1 ≤ trial.restsLeft := by
    have hlater : trial.now / nanosPerMilli < trial.nextWake / nanosPerMilli :=
      Nat.div_lt_div_of_lt_of_dvd h.dvd_nextWake hidle.lt_nextWake
    have hlast : trial.nextWake / nanosPerMilli ≤
        (trial.deadline + trial.checks.period) / nanosPerMilli + 1 :=
      calc trial.nextWake / nanosPerMilli
          ≤ trial.checks.wakes / nanosPerMilli := Nat.div_le_div_right trial.nextWake_le
        _ ≤ trial.checks.deadline / nanosPerMilli + 1 := Moment.fires_div_le _
        _ ≤ _ := Nat.add_le_add_right (Nat.div_le_div_right (h.deadline_le hopen)) 1
    exact Nat.sub_lt_sub_left (hlater.trans_le hlast) hlater
  have hlength : next.movesPerRest = trial.movesPerRest := rfl
  have hmoves : next.movesLeft < trial.movesPerRest :=
    @movesLeft_lt next fun lane hlane => (hidle.lanes lane hlane).2.2
  calc next.account + 1 = next.restsLeft * trial.movesPerRest + (next.movesLeft + 1) := by
        rw [account, hlength, Nat.add_assoc]
    _ ≤ next.restsLeft * trial.movesPerRest + trial.movesPerRest := Nat.add_le_add_left hmoves _
    _ = (next.restsLeft + 1) * trial.movesPerRest := by ring
    _ ≤ trial.restsLeft * trial.movesPerRest := Nat.mul_le_mul_right _ hrests
    _ ≤ trial.account := Nat.le_add_right _ _

/-- Every move draws on the account. -/
theorem Timely.account_acts (h : trial.Timely) (hopen : trial.finished = false)
    (hact : trial.Acts move next) : next.account + 1 ≤ trial.account := by
  have hticks {index : ℕ} {lane : Lane} (hlane : trial.lanes[index]? = some lane) : lane.Ticks :=
    h.lanes lane (List.mem_of_getElem? hlane)
  cases hact with
  | offer pacer opens hlane hstage hdue _ =>
    have hless := Ticker.ticksLeft_tick (by decide) (hticks hlane).offers hdue
    refine account_withLane hlane ?_
    simp only [Lane.movesLeft, hstage, reduceCtorEq, or_self, or_false, if_true, if_false]
    omega
  | queue hlane hstage _ _ _ =>
    rw [account_count]
    refine account_withLane hlane ?_
    simp only [Lane.movesLeft, hstage, reduceCtorEq, or_self, or_false, if_true, if_false]
    omega
  | drop hlane hstage _ _ _ =>
    rw [account_count]
    refine account_withLane hlane ?_
    simp only [Lane.movesLeft, hstage, reduceCtorEq, or_self, or_false, if_true, if_false]
    omega
  | giveUp hlane hstage _ _ =>
    refine account_withLane hlane ?_
    simp only [Lane.movesLeft, hstage, reduceCtorEq, or_self, or_true, if_true, if_false]
    omega
  | tick hlane hstage hdue =>
    have hless := Ticker.ticksLeft_tick (by decide) (hticks hlane).ticker hdue
    refine account_withLane hlane ?_
    simp only [Lane.movesLeft, hstage, reduceCtorEq, if_true, if_false]
    omega
  | acknowledge hlane hstage _ _ =>
    refine account_withLane hlane ?_
    simp only [Lane.movesLeft, hstage, reduceCtorEq, if_true, if_false, List.length_append,
      List.length_singleton]
    omega
  | hangUp hlane hstage _ =>
    refine account_withLane hlane ?_
    simp only [Lane.movesLeft, hstage, reduceCtorEq, if_true, if_false]
    omega
  | hear hlane hacks =>
    rw [account_count]
    refine account_withLane hlane ?_
    simp only [Lane.movesLeft, hacks, List.length_cons]
    omega
  | check hdue => exact h.account_checked hdue
  | rest hidle => exact h.account_rest hopen (idle_of_busy hidle)

/-! ### Runs end -/

/-- **Every run draws on the account**, whatever the order of its moves. -/
theorem Timely.length_add_account_le (h : trial.Timely) (hrun : trial.run? moves = some last) :
    moves.length + last.account ≤ trial.account := by
  induction moves generalizing trial with
  | nil =>
    obtain rfl := Option.some.inj hrun
    simp
  | cons move moves ih =>
    obtain ⟨next, hnext, hrest⟩ := Option.bind_eq_some_iff.mp hrun
    obtain ⟨hopen, hact⟩ := acts_of_act? hnext
    have hstep := h.account_acts hopen hact
    have hmoves := ih (h.acts hact) hrest
    rw [List.length_cons]
    omega

/-- A trial that is not over has a next move. -/
theorem exists_act_of_step? (hopen : trial.finished = false) :
    ∃ move next, trial.step? = some next ∧ trial.act? move = some next := by
  have hsome : trial.step?.isSome := by
    rw [step?, List.findSome?_append, Option.isSome_or]
    by_cases hbusy : trial.busyMoves.any fun move => (trial.actBusy? move).isSome
    · obtain ⟨move, hmove, hact⟩ := List.any_eq_true.mp hbusy
      have hfirst : (trial.busyMoves.findSome? trial.act?).isSome := by
        refine List.findSome?_isSome_iff.mpr ⟨move, hmove, ?_⟩
        cases move with
        | rest => exact absurd hact (by simp [actBusy?])
        | _ => simpa [act?, hopen] using hact
      rw [hfirst, Bool.true_or]
    · have hrest : ([Move.rest].findSome? trial.act?).isSome := by
        simp [act?, hopen, rest?, hbusy]
      rw [hrest, Bool.or_true]
  obtain ⟨next, hnext⟩ := Option.isSome_iff_exists.mp hsome
  obtain ⟨move, -, hact⟩ := List.exists_of_findSome?_eq_some hnext
  exact ⟨move, next, hnext, hact⟩

/-- A trial is run until it is over or the given number of moves is made. -/
theorem exists_run_runUpTo (fuel : ℕ) (trial : Trial) :
    ∃ moves, trial.run? moves = some (runUpTo fuel trial) ∧
      ((runUpTo fuel trial).finished = true ∨ moves.length = fuel) := by
  induction fuel generalizing trial with
  | zero => exact ⟨[], rfl, Or.inr rfl⟩
  | succ fuel ih =>
    cases hfinished : trial.finished with
    | false =>
      obtain ⟨move, next, hstep, hact⟩ := exists_act_of_step? hfinished
      obtain ⟨moves, hrun, hend⟩ := ih next
      have hnext : runUpTo (fuel + 1) trial = runUpTo fuel next := by rw [runUpTo, hstep]
      rw [hnext]
      refine ⟨move :: moves, ?_, hend.imp id fun hlength => ?_⟩
      · rw [run?, hact, Option.bind_some, hrun]
      · rw [List.length_cons, hlength]
    | true =>
      have hstep : trial.step? = none :=
        List.findSome?_eq_none_iff.mpr fun move _ => if_pos hfinished
      have hnext : runUpTo (fuel + 1) trial = trial := by rw [runUpTo, hstep]
      rw [hnext]
      exact ⟨[], rfl, Or.inl hfinished⟩

/-- A new trial has more moves than it can make. -/
theorem account_start_lt (settings : PolicySettings) (load : LoadSettings) (policy : Policy) :
    (start settings load policy).account < (start settings load policy).moveLimit := by
  set trial := start settings load policy
  have hacks : ∀ lane ∈ trial.lanes, lane.link.acks = [] := by
    intro lane hlane
    obtain ⟨index, capacity, rfl⟩ := exists_newLane hlane
    rfl
  have hmoves := movesLeft_lt hacks
  have hrests : trial.restsLeft ≤ (trial.deadline + trial.checks.period) / nanosPerMilli + 1 :=
    Nat.sub_le _ _
  calc trial.account < trial.restsLeft * trial.movesPerRest + trial.movesPerRest :=
        Nat.add_lt_add_left hmoves _
    _ = (trial.restsLeft + 1) * trial.movesPerRest := by ring
    _ ≤ trial.moveLimit :=
      Nat.mul_le_mul_right _ (Nat.add_le_add_right (hrests.trans (Nat.le_add_right _ 1)) 1)

/-- **No run of a new trial is longer than its limit.** -/
theorem length_lt_moveLimit {settings : PolicySettings} {load : LoadSettings} {policy : Policy}
    (hrun : (start settings load policy).run? moves = some last) :
    moves.length < (start settings load policy).moveLimit := by
  have hlength := (timely_start settings load policy).length_add_account_le hrun
  have hlimit := account_start_lt settings load policy
  omega

/-- **A new trial that is completed is over**, after moves that are possible one by one. -/
theorem exists_run_complete (settings : PolicySettings) (load : LoadSettings) (policy : Policy) :
    ∃ moves, (start settings load policy).run? moves =
        some (start settings load policy).complete ∧
      (start settings load policy).complete.finished = true := by
  obtain ⟨moves, hrun, hend⟩ :=
    exists_run_runUpTo (start settings load policy).moveLimit (start settings load policy)
  exact ⟨moves, hrun, hend.resolve_right (length_lt_moveLimit hrun).ne⟩

end Trial

/-! ### Accepted settings -/

/-- The window of a policy is the chosen one. -/
theorem PolicySettings.window_eq {settings : PolicySettings} {policy : Policy}
    (h : settings.policy = .ok policy) : policy.window = settings.window := by
  obtain ⟨tuning, -, hpolicy⟩ := bind_eq_ok.mp h
  unfold Policy.ofTuning at hpolicy
  split_ifs at hpolicy
  obtain rfl := Except.ok.inj hpolicy
  rfl

namespace Settings

variable {settings : Settings} {policy : Policy}

/-- **Accepted settings are tried**, and what is reported is a trial that is over. -/
theorem exists_tryLoad (hload : settings.load.check = .ok ())
    (hpolicy : settings.policy.policy = .ok policy) :
    ∃ moves trial, (Trial.start settings.policy settings.load policy).run? moves = some trial ∧
      trial.finished = true ∧ settings.tryLoad = .ok trial.report := by
  obtain ⟨moves, hrun, hfinished⟩ :=
    Trial.exists_run_complete settings.policy settings.load policy
  refine ⟨moves, _, hrun, hfinished, ?_⟩
  rw [tryLoad, hload, hpolicy]
  rfl

end Settings

end FlowControl
