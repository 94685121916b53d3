import FlowControl.Load.Trial
import FlowControl.Proofs.Roster.Basic

/-!
# The moves of a trial

All that a move can do to a trial, with the conditions under which it is possible, and the runs
that any list of moves leads to. Later modules use this description alone.
-/

namespace FlowControl.Trial

/-- The trial after one more message or acknowledgment of a flow is counted. -/
def count (trial : Trial) (id : FlowId) (direction : Direction) : Trial :=
  { trial with roster := trial.roster.modify id (·.record direction 1) }

/-- The trial after a check. -/
def checked (trial : Trial) : Trial :=
  let roster := (trial.roster.judgeAll (trial.watch.millis trial.now)).1
  let elapsedMs := saturate (trial.now / nanosPerMilli)
  let (samples, sampled) := sampleAll elapsedMs roster.trackedFlows trial.sampled
  { trial with
    roster := roster
    checks := trial.checks.tick trial.now
    sampled := sampled
    blocks := if samples.isEmpty then trial.blocks else samples :: trial.blocks
    finished := decide (trial.deadline ≤ trial.now) }

/-- A check leaves the lanes as they are. -/
@[simp] theorem checked_lanes (trial : Trial) : trial.checked.lanes = trial.lanes := rfl

/-- A check takes no time. -/
@[simp] theorem checked_now (trial : Trial) : trial.checked.now = trial.now := rfl

/-- A check does not put off the deadline. -/
@[simp] theorem checked_deadline (trial : Trial) : trial.checked.deadline = trial.deadline := rfl

/-- A check is a tick of the timer of the supervisor. -/
@[simp] theorem checked_checks (trial : Trial) :
    trial.checked.checks = trial.checks.tick trial.now := rfl

/-- A check judges all flows at the reading of the stopwatch. -/
@[simp] theorem checked_roster (trial : Trial) : trial.checked.roster =
    (trial.roster.judgeAll (trial.watch.millis trial.now)).1 := rfl

/-- To count traffic on one flow changes this flow and no other one. -/
theorem flow?_count (trial : Trial) (id other : FlowId) (direction : Direction) :
    (trial.count id direction).roster.flow? other =
      if other = id then (trial.roster.flow? id).map (·.record direction 1)
      else trial.roster.flow? other :=
  Roster.flow?_modify _

/-- Where one lane is replaced, the others are the same as before. -/
theorem getElem?_withLane {trial : Trial} {index : ℕ} {lane : Lane}
    (hlane : trial.lanes[index]? = some lane) (lane' : Lane) (other : ℕ) :
    (trial.withLane index lane').lanes[other]? =
      if index = other then some lane' else trial.lanes[other]? := by
  rw [withLane, List.getElem?_set, if_pos (List.getElem?_eq_some_iff.mp hlane).1]

/-- A check notes how many windows of each flow are sampled then, from the flows as they were
judged. -/
theorem checked_sampled (trial : Trial) : trial.checked.sampled =
    (sampleAll (saturate (trial.now / nanosPerMilli)) trial.checked.roster.trackedFlows
      trial.sampled).2 := rfl

/-- The samples of a check are a block of their own, unless there are none. -/
theorem checked_blocks (trial : Trial) : trial.checked.blocks =
    if (sampleAll (saturate (trial.now / nanosPerMilli)) trial.checked.roster.trackedFlows
      trial.sampled).1.isEmpty then trial.blocks
    else (sampleAll (saturate (trial.now / nanosPerMilli)) trial.checked.roster.trackedFlows
      trial.sampled).1 :: trial.blocks := rfl

/-- What a move does to a trial. -/
inductive Acts (trial : Trial) : Move → Trial → Prop
  /-- A sender takes a message, and waits for the slot that it reserves. -/
  | offer {index : Nat} {lane : Lane} (pacer : Pacer) (opens : Moment)
    (hlane : trial.lanes[index]? = some lane) (hstage : lane.stage = .awaitingOffer)
    (hdue : lane.offers.isDue trial.now = true)
    (hopens : opens = trial.now ∨ ∃ moment, opens = Moment.fires moment) :
    Acts trial (.offer index) (trial.withLane index
      { lane with
        offers := lane.offers.tick trial.now
        pacer := pacer
        stage := .awaitingSlot opens })
  /-- A sender sends, and the peer has room for the message. -/
  | queue {index : Nat} {lane : Lane} {opens : Moment}
    (hlane : trial.lanes[index]? = some lane) (hstage : lane.stage = .awaitingSlot opens)
    (hopen : opens ≤ trial.now) (hlink : lane.link.stage ≠ .stopped)
    (hroom : lane.link.backlog.length < lane.link.depth) :
    Acts trial (.dispatch index) ((trial.withLane index
      { lane with
        link := { lane.link with
          backlog := lane.link.backlog ++ [lane.nextMessage]
          queued := lane.link.queued + 1 }
        stage := .awaitingOffer
        nextMessage := lane.nextMessage + 1 }).count lane.flow .outgoing)
  /-- A sender sends, and the peer has no room for the message. -/
  | drop {index : Nat} {lane : Lane} {opens : Moment}
    (hlane : trial.lanes[index]? = some lane) (hstage : lane.stage = .awaitingSlot opens)
    (hopen : opens ≤ trial.now) (hlink : lane.link.stage ≠ .stopped)
    (hfull : lane.link.depth ≤ lane.link.backlog.length) :
    Acts trial (.dispatch index) ((trial.withLane index
      { lane with
        link := { lane.link with dropped := lane.link.dropped + 1 }
        stage := .awaitingOffer
        nextMessage := lane.nextMessage + 1 }).count lane.flow .outgoing)
  /-- A sender finds that the peer has stopped, and stops. -/
  | giveUp {index : Nat} {lane : Lane} {opens : Moment}
    (hlane : trial.lanes[index]? = some lane) (hstage : lane.stage = .awaitingSlot opens)
    (hopen : opens ≤ trial.now) (hlink : lane.link.stage = .stopped) :
    Acts trial (.dispatch index) (trial.withLane index { lane with stage := .stopped })
  /-- A peer takes a tick. -/
  | tick {index : Nat} {lane : Lane} (hlane : trial.lanes[index]? = some lane)
    (hstage : lane.link.stage = .awaitingTick)
    (hdue : lane.link.ticker.isDue trial.now = true) :
    Acts trial (.process index) (trial.withLane index
      { lane with
        link := { lane.link with
          stage := .awaitingMessage
          ticker := lane.link.ticker.tick trial.now } })
  /-- A peer takes its oldest message and acknowledges it. -/
  | acknowledge {index : Nat} {lane : Lane} {message : MessageId} {rest : List MessageId}
    (hlane : trial.lanes[index]? = some lane) (hstage : lane.link.stage = .awaitingMessage)
    (hbacklog : lane.link.backlog = message :: rest) (hheard : lane.link.heard = true) :
    Acts trial (.process index) (trial.withLane index
      { lane with
        link := { lane.link with
          backlog := rest
          acks := lane.link.acks ++ [message]
          stage := .awaitingTick } })
  /-- A peer finds that nobody listens, and stops. -/
  | hangUp {index : Nat} {lane : Lane} (hlane : trial.lanes[index]? = some lane)
    (hstage : lane.link.stage = .awaitingMessage) (hheard : lane.link.heard = false) :
    Acts trial (.process index) (trial.withLane index
      { lane with link := { lane.link with backlog := [], stage := .stopped } })
  /-- A listener takes the oldest acknowledgment. -/
  | hear {index : Nat} {lane : Lane} {message : MessageId} {rest : List MessageId}
    (hlane : trial.lanes[index]? = some lane) (hacks : lane.link.acks = message :: rest) :
    Acts trial (.hear index) ((trial.withLane index
      { lane with
        link := { lane.link with acks := rest }
        acknowledged := lane.acknowledged + 1 }).count lane.flow .incoming)
  /-- The supervisor judges all flows. -/
  | check (hdue : trial.checks.isDue trial.now = true) : Acts trial .check trial.checked
  /-- Nothing else is possible, and the clock moves on. -/
  | rest (hidle : ∀ move ∈ trial.busyMoves, trial.actBusy? move = none) :
    Acts trial .rest { trial with now := trial.nextWake }

variable {trial next last : Trial} {move : Move} {moves : List Move}

/-- A sender that takes the next message does what the description says: it reserves a slot, and its
timer ticks. -/
theorem acts_of_offer? {index : Nat} (h : trial.offer? index = some next) :
    trial.Acts (.offer index) next := by
  simp only [offer?, Option.bind_eq_bind, Option.bind_eq_some_iff] at h
  obtain ⟨lane, hlane, lane', hlane', heq⟩ := h
  obtain rfl := Option.some.inj heq
  unfold Lane.offer? at hlane'
  split_ifs at hlane' with hcondition
  obtain rfl := Option.some.inj hlane'
  refine .offer _ _ hlane hcondition.1 hcondition.2 ?_
  split_ifs
  · exact Or.inl rfl
  · exact Or.inr ⟨_, rfl⟩

/-- A sender whose slot is open has its message queued or dropped, which is counted, or it gives up
because the peer has stopped. -/
theorem acts_of_dispatch? {index : Nat} (h : trial.dispatch? index = some next) :
    trial.Acts (.dispatch index) next := by
  simp only [dispatch?, Option.bind_eq_bind, Option.bind_eq_some_iff] at h
  obtain ⟨lane, hlane, ⟨outcome, lane'⟩, hdispatch, heq⟩ := h
  unfold Lane.dispatch? at hdispatch
  split at hdispatch
  · next opens hstage =>
    split_ifs at hdispatch with hopen
    by_cases hlink : lane.link.stage = .stopped
    · simp only [Link.send, if_pos hlink, Option.some.injEq, Prod.mk.injEq] at hdispatch
      obtain ⟨rfl, rfl⟩ := hdispatch
      obtain rfl := Option.some.inj heq
      exact .giveUp hlane hstage hopen hlink
    · by_cases hroom : lane.link.backlog.length < lane.link.depth
      · simp only [Link.send, if_neg hlink, if_pos hroom, Option.some.injEq,
          Prod.mk.injEq] at hdispatch
        obtain ⟨rfl, rfl⟩ := hdispatch
        obtain rfl := Option.some.inj heq
        exact .queue hlane hstage hopen hlink hroom
      · simp only [Link.send, if_neg hlink, if_neg hroom, Option.some.injEq,
          Prod.mk.injEq] at hdispatch
        obtain ⟨rfl, rfl⟩ := hdispatch
        obtain rfl := Option.some.inj heq
        exact .drop hlane hstage hopen hlink (Nat.le_of_not_lt hroom)
  · exact absurd hdispatch (Option.some_ne_none _).symm

/-- A peer that works takes a tick, acknowledges its oldest message, or stops because nobody
listens. -/
theorem acts_of_process? {index : Nat} (h : trial.process? index = some next) :
    trial.Acts (.process index) next := by
  simp only [process?, Option.bind_eq_bind, Option.bind_eq_some_iff] at h
  obtain ⟨lane, hlane, lane', hlane', heq⟩ := h
  obtain rfl := Option.some.inj heq
  obtain ⟨link, hlink, rfl⟩ := Option.map_eq_some_iff.mp hlane'
  unfold Link.step? at hlink
  split at hlink
  · next hstage =>
    split_ifs at hlink with hdue
    obtain rfl := Option.some.inj hlink
    exact .tick hlane hstage hdue
  · next hstage hbacklog =>
    split_ifs at hlink with hheard
    · obtain rfl := Option.some.inj hlink
      exact .acknowledge hlane hstage hbacklog hheard
    · obtain rfl := Option.some.inj hlink
      exact .hangUp hlane hstage (eq_false_of_ne_true hheard)
  · exact absurd hlink (Option.some_ne_none _).symm
  · exact absurd hlink (Option.some_ne_none _).symm

/-- A listener that takes an acknowledgment counts it on the flow of its lane. -/
theorem acts_of_hear? {index : Nat} (h : trial.hear? index = some next) :
    trial.Acts (.hear index) next := by
  simp only [hear?, Option.bind_eq_bind, Option.bind_eq_some_iff] at h
  obtain ⟨lane, hlane, lane', hlane', heq⟩ := h
  obtain rfl := Option.some.inj heq
  unfold Lane.hear? at hlane'
  split at hlane'
  · exact absurd hlane' (Option.some_ne_none _).symm
  · next hacks =>
    obtain rfl := Option.some.inj hlane'
    exact .hear hlane hacks

/-- A possible move does what moves do, in a trial that is not over. -/
theorem acts_of_act? (h : trial.act? move = some next) :
    trial.finished = false ∧ trial.Acts move next := by
  unfold act? at h
  split_ifs at h with hfinished
  refine ⟨eq_false_of_ne_true hfinished, ?_⟩
  cases move with
  | offer index => exact acts_of_offer? h
  | dispatch index => exact acts_of_dispatch? h
  | process index => exact acts_of_process? h
  | hear index => exact acts_of_hear? h
  | check =>
    have hcheck : trial.check? = if trial.checks.isDue trial.now then some trial.checked
      else none := rfl
    rw [actBusy?, hcheck] at h
    split_ifs at h with hdue
    obtain rfl := Option.some.inj h
    exact .check hdue
  | rest =>
    simp only [rest?] at h
    split_ifs at h with hbusy
    obtain rfl := Option.some.inj h
    simp only [List.any_eq_true, not_exists, not_and, Option.isSome_iff_ne_none, not_not] at hbusy
    exact .rest hbusy

/-- The trial after a list of moves, if all of them are possible. -/
def run? (trial : Trial) : List Move → Option Trial
  | [] => some trial
  | move :: moves => (trial.act? move).bind (·.run? moves)

/-- What every move keeps, every run keeps. -/
theorem run?_preserves {P : Trial → Prop}
    (hact : ∀ {trial next : Trial} {move : Move}, P trial → trial.Acts move next → P next)
    (h : P trial) (hrun : trial.run? moves = some last) : P last := by
  induction moves generalizing trial with
  | nil =>
    obtain rfl := Option.some.inj hrun
    exact h
  | cons move moves ih =>
    obtain ⟨next, hnext, hrest⟩ := Option.bind_eq_some_iff.mp hrun
    exact ih (hact h (acts_of_act? hnext).2) hrest

end FlowControl.Trial
