import FlowControl.Proofs.Course.WindowGate
import Mathlib.Data.List.Induction
import Mathlib.Data.Nat.ModEq

/-!
# What a window counts

The meters of a flow count exactly what was recorded since the last window was closed, and the
rates that a window is judged by are made of these counts. Between two closes a run amounts to
its moves of the clock and to two sums, one for each direction, so nothing later can tell in
which order, or in how many pieces, the traffic of a window was recorded.
-/

namespace FlowControl.Course

namespace Step

/-- The events that a step records in a direction. -/
def amount (direction : Direction) : Step → ℕ
  | .record recorded events => if recorded = direction then events.toNat else 0
  | .move _ => 0
  | .judge => 0

/-- Whether a step records traffic. -/
def isRecord : Step → Bool
  | .record _ _ => true
  | .move _ => false
  | .judge => false

end Step

/-- The events that steps record in a direction, all together. -/
def recorded (direction : Direction) (steps : List Step) : ℕ :=
  (steps.map (Step.amount direction)).sum

/-- The steps without those that record traffic. -/
def withoutRecords (steps : List Step) : List Step :=
  steps.filter fun step => !step.isRecord

/-- The clock after the moves among the steps. -/
def clockAfter : ManualClock → List Step → ManualClock
  | clock, [] => clock
  | clock, .move move :: steps => clockAfter (clock.move move) steps
  | clock, .record _ _ :: steps => clockAfter clock steps
  | clock, .judge :: steps => clockAfter clock steps

/-- No judgement among the steps closes a window. -/
def Quiet (policy : Policy) : Course → List Step → Prop
  | _, [] => True
  | course, step :: steps =>
    (step = .judge → ¬ course.Closes policy) ∧ Quiet policy (course.step policy step) steps

/-- A run whose last `recent` steps belong to the window that is still open: the steps before
them end with a judgement that closed a window, or there are none, and nothing was closed
since. -/
structure OpenSince (policy : Policy) (course : Course) (past recent : List Step) : Prop where
  opened : past = [] ∨
    ∃ earlier, past = earlier ++ [.judge] ∧ (course.run policy earlier).Closes policy
  quiet : Quiet policy (course.run policy past) recent

variable {policy : Policy} {course other : Course} {direction : Direction}

/-- A run is quiet exactly if each of its two parts is. -/
theorem quiet_append {first second : List Step} :
    Quiet policy course (first ++ second) ↔
      Quiet policy course first ∧ Quiet policy (course.run policy first) second := by
  induction first generalizing course with
  | nil => simp [Quiet]
  | cons step steps ih => rw [List.cons_append, Quiet, ih, Quiet, run_cons, and_assoc]

/-- Nothing is told of a quiet run. -/
theorem journal_of_quiet {steps : List Step} (h : Quiet policy course steps) :
    course.journal policy steps = [] := by
  induction steps generalizing course with
  | nil => rfl
  | cons step steps ih =>
    rw [journal, ih h.2, List.append_nil, tells_of_not_closes h.1]

/-- Whether a window closes depends on the clock and the last decision alone. -/
theorem closes_congr (hclock : course.clock = other.clock)
    (hlast : course.flow.lastDecision = other.flow.lastDecision) :
    course.Closes policy ↔ other.Closes policy := by
  rw [closes_iff, closes_iff, hclock, hlast]

/-- Whether a run is quiet depends on the clock and the last decision alone. -/
theorem quiet_congr {steps : List Step} (hclock : course.clock = other.clock)
    (hlast : course.flow.lastDecision = other.flow.lastDecision) :
    Quiet policy course steps ↔ Quiet policy other steps := by
  induction steps generalizing course other with
  | nil => rfl
  | cons step steps ih =>
    have hcloses : course.Closes policy ↔ other.Closes policy := closes_congr hclock hlast
    rw [Quiet, Quiet, hcloses]
    apply and_congr_right
    intro hquiet
    apply ih
    · cases step <;> simp [Course.step, hclock]
    · rw [(step_eq_of_not_closes fun h => mt hcloses.mp (hquiet h)).1,
        (step_eq_of_not_closes hquiet).1, hlast]

/-- The traffic recorded in a run does not matter for whether it is quiet. -/
theorem quiet_withoutRecords {steps : List Step} :
    Quiet policy course (withoutRecords steps) ↔ Quiet policy course steps := by
  induction steps generalizing course with
  | nil => rfl
  | cons step steps ih =>
    cases step with
    | record recorded events =>
      have hrest : withoutRecords (.record recorded events :: steps) = withoutRecords steps := rfl
      rw [hrest, ih, Quiet]
      have hcongr : Quiet policy (course.step policy (.record recorded events)) steps ↔
          Quiet policy course steps := quiet_congr rfl (by simp [Course.step])
      simp [hcongr]
    | move move =>
      have hrest : withoutRecords (.move move :: steps) = .move move :: withoutRecords steps := rfl
      rw [hrest, Quiet, Quiet, ih]
    | judge =>
      have hrest : withoutRecords (.judge :: steps) = .judge :: withoutRecords steps := rfl
      rw [hrest, Quiet, Quiet, ih]

/-- To leave the records out makes no difference to the clock. -/
theorem clockAfter_withoutRecords {clock : ManualClock} {steps : List Step} :
    clockAfter clock (withoutRecords steps) = clockAfter clock steps := by
  induction steps generalizing clock with
  | nil => rfl
  | cons step steps ih => cases step <;> exact ih

/-- A quiet run moves the clock and adds up what is recorded, and that is all. -/
theorem run_of_quiet {steps : List Step} (h : Quiet policy course steps) :
    course.run policy steps =
      ⟨clockAfter course.clock steps,
        { course.flow with
          incoming := course.flow.incoming.record (.ofNat (recorded .incoming steps))
          outgoing := course.flow.outgoing.record (.ofNat (recorded .outgoing steps)) }⟩ := by
  induction steps generalizing course with
  | nil => simp [clockAfter, recorded, Meter.record]
  | cons step steps ih =>
    rw [run_cons, ih h.2]
    cases step with
    | move _ => simp [Course.step, clockAfter, recorded, Step.amount]
    | record side events =>
      cases side <;>
        simp [Course.step, clockAfter, recorded, Step.amount, Flow.record, Flow.mapMeter,
          Meter.record, UInt64.ofNat_add, UInt64.add_assoc]
    | judge =>
      rw [step_judge_of_not_closes (h.1 rfl)]
      simp [clockAfter, recorded, Step.amount]

/-- Two quiet runs with the same moves and judgements and the same sums, up to the wrap of the
meters, lead to the same place. -/
theorem run_eq_of_quiet {steps steps' : List Step} (h : Quiet policy course steps)
    (hsteps : withoutRecords steps = withoutRecords steps')
    (hsum : ∀ direction, recorded direction steps ≡ recorded direction steps' [MOD 2 ^ 64]) :
    course.run policy steps = course.run policy steps' := by
  have h' : Quiet policy course steps' := by
    rwa [← quiet_withoutRecords, ← hsteps, quiet_withoutRecords]
  have hclock : clockAfter course.clock steps = clockAfter course.clock steps' := by
    rw [← clockAfter_withoutRecords, hsteps, clockAfter_withoutRecords]
  have hword (direction : Direction) :
      UInt64.ofNat (recorded direction steps) = UInt64.ofNat (recorded direction steps') := by
    rw [← UInt64.toNat_inj, UInt64.toNat_ofNat', UInt64.toNat_ofNat']
    exact hsum direction
  rw [run_of_quiet h, run_of_quiet h', hclock, hword .incoming, hword .outgoing]

/-- Every run ends in an open window. -/
theorem exists_openSince (steps : List Step) :
    ∃ past recent, steps = past ++ recent ∧ OpenSince policy course past recent := by
  induction steps using List.reverseRecOn with
  | nil => exact ⟨[], [], rfl, Or.inl rfl, trivial⟩
  | append_singleton steps step ih =>
    obtain ⟨past, recent, rfl, hopen⟩ := ih
    obtain ⟨rfl, hcloses⟩ | hquiet := closes_or_not policy (course.run policy (past ++ recent)) step
    · exact ⟨past ++ recent ++ [.judge], [], by simp, Or.inr ⟨_, rfl, hcloses⟩, trivial⟩
    · refine ⟨past, recent ++ [step], by simp, hopen.opened, ?_⟩
      rw [run_append] at hquiet
      exact quiet_append.mpr ⟨hopen.quiet, hquiet, trivial⟩

/-- The peer of a flow and the windows of its meters, which nothing changes. -/
def BelongsTo (policy : Policy) (peer : Peer) (course : Course) : Prop :=
  course.flow.peer = peer ∧ course.flow.incoming.window = policy.window ∧
    course.flow.outgoing.window = policy.window

/-- A step leaves a flow to its peer, and its meters with their windows. -/
theorem BelongsTo.step {peer : Peer} (h : course.BelongsTo policy peer) (step : Step) :
    (course.step policy step).BelongsTo policy peer := by
  obtain ⟨rfl, hcloses⟩ | hquiet := closes_or_not policy course step
  · rw [BelongsTo, hcloses.flow_step]
    exact h
  · obtain hsame | ⟨direction, events, hrecord⟩ := flow_step_of_not_closes hquiet
    · rwa [BelongsTo, hsame]
    · rw [BelongsTo, hrecord]
      cases direction <;> exact h

/-- In every run a flow has the peer that it was started for and the windows of the policy. -/
theorem belongsTo_run (policy : Policy) (peer : Peer) (millis : UInt64) (steps : List Step) :
    ((start policy peer millis).run policy steps).BelongsTo policy peer :=
  run_preserves (fun _ step h => h.step step) ⟨rfl, rfl, rfl⟩ steps

/-- Closing a window leaves its meters at zero. -/
theorem Closes.count_step (h : course.Closes policy) (direction : Direction) :
    ((course.step policy .judge).flow.meter direction).count = 0 := by
  rw [h.flow_step]
  cases direction <;> rfl

/-- When a window is opened, the meters stand at zero. -/
theorem count_of_opened {peer : Peer} {millis : UInt64} {past recent : List Step}
    (h : OpenSince policy (start policy peer millis) past recent) (direction : Direction) :
    (((start policy peer millis).run policy past).flow.meter direction).count = 0 := by
  rcases h.opened with rfl | ⟨earlier, rfl, hcloses⟩
  · cases direction <;> rfl
  · rw [run_append, run_cons, run_nil]
    exact hcloses.count_step direction

/-- The meters of an open window hold what was recorded since it was opened. -/
theorem meter_of_openSince {peer : Peer} {millis : UInt64} {past recent : List Step}
    (h : OpenSince policy (start policy peer millis) past recent) (direction : Direction) :
    ((start policy peer millis).run policy (past ++ recent)).flow.meter direction =
      ⟨policy.window, .ofNat (recorded direction recent)⟩ := by
  have hcount := count_of_opened h direction
  obtain ⟨_, hincoming, houtgoing⟩ := belongsTo_run policy peer millis past
  rw [run_append, run_of_quiet h.quiet]
  cases direction <;> simp_all [Flow.meter, Meter.record]

/-- The verdict on an open window, of what was recorded since it was opened. -/
theorem verdict_of_openSince {peer : Peer} {millis : UInt64} {past recent : List Step}
    (h : OpenSince policy (start policy peer millis) past recent) :
    policy.verdict ((start policy peer millis).run policy (past ++ recent)).flow =
      policy.tuning.verdict ((start policy peer millis).run policy (past ++ recent)).flow.rate
        (Meter.perSecond policy.window (.ofNat (recorded .incoming recent)))
        (Meter.perSecond policy.window (.ofNat (recorded .outgoing recent))) := by
  have hincoming := meter_of_openSince h .incoming
  have houtgoing := meter_of_openSince h .outgoing
  simp only [Flow.meter] at hincoming houtgoing
  rw [Policy.verdict, hincoming, houtgoing]
  rfl

/-- Two ways to record the traffic of a window lead to the same run and the same journal, whatever
comes after. -/
theorem run_journal_eq_of_quiet {block block' : List Step} (hquiet : Quiet policy course block)
    (hsteps : withoutRecords block = withoutRecords block')
    (hsum : ∀ direction, recorded direction block ≡ recorded direction block' [MOD 2 ^ 64])
    (rest : List Step) :
    course.run policy (block ++ rest) = course.run policy (block' ++ rest) ∧
      course.journal policy (block ++ rest) = course.journal policy (block' ++ rest) := by
  have hquiet' : Quiet policy course block' := by
    rwa [← quiet_withoutRecords, ← hsteps, quiet_withoutRecords]
  have hrun := run_eq_of_quiet hquiet hsteps hsum
  constructor
  · rw [run_append, run_append, hrun]
  · rw [journal_append, journal_append, hrun, journal_of_quiet hquiet, journal_of_quiet hquiet']

/-- **No event is lost, counted twice, or counted in another window.** At every point of every
run of a new flow the meters hold, up to their wrap, what was recorded since the window was
opened; judging a window uses the rates of exactly these sums and leaves both meters at zero;
and two ways to record the traffic of a window that agree in the sums lead to the same flow and
the same journal, whatever comes before and after. -/
theorem window_counts (policy : Policy) (peer : Peer) (millis : UInt64) :
    (∀ steps, ∃ past recent, steps = past ++ recent ∧
      OpenSince policy (start policy peer millis) past recent) ∧
    (∀ past recent, OpenSince policy (start policy peer millis) past recent →
      let course := (start policy peer millis).run policy (past ++ recent)
      let rate direction := Meter.perSecond policy.window (.ofNat (recorded direction recent))
      let verdict := policy.tuning.verdict course.flow.rate (rate .incoming) (rate .outgoing)
      (∀ direction,
        (course.flow.meter direction).count.toNat = recorded direction recent % 2 ^ 64) ∧
      (course.Closes policy →
        (course.step policy .judge).flow = course.flow.close course.clock.now verdict ∧
        course.tells policy .judge =
          .windowClosed peer course.flow.rate verdict
            :: Flow.transition peer course.flow.overloaded verdict ∧
        ∀ direction, ((course.step policy .judge).flow.meter direction).count = 0)) ∧
    (∀ past block block' rest, Quiet policy ((start policy peer millis).run policy past) block →
      withoutRecords block = withoutRecords block' →
      (∀ direction, recorded direction block ≡ recorded direction block' [MOD 2 ^ 64]) →
      (start policy peer millis).run policy (past ++ block ++ rest) =
        (start policy peer millis).run policy (past ++ block' ++ rest) ∧
      (start policy peer millis).journal policy (past ++ block ++ rest) =
        (start policy peer millis).journal policy (past ++ block' ++ rest)) := by
  refine ⟨exists_openSince, ?_, ?_⟩
  · intro past recent hopen course rate verdict
    have hverdict : policy.verdict course.flow = verdict := verdict_of_openSince hopen
    have hpeer : course.flow.peer = peer := (belongsTo_run policy peer millis _).1
    constructor
    · intro direction
      rw [meter_of_openSince hopen direction, UInt64.toNat_ofNat']
    · intro hcloses
      refine ⟨?_, ?_, hcloses.count_step⟩
      · rw [hcloses.flow_step, hverdict]
      · rw [hcloses.tells_judge, hverdict, hpeer]
  · intro past block block' rest hquiet hsteps hsum
    obtain ⟨hrun, hjournal⟩ := run_journal_eq_of_quiet hquiet hsteps hsum rest
    rw [List.append_assoc, List.append_assoc]
    constructor
    · rw [run_append past, run_append past, hrun]
    · rw [journal_append past, journal_append past, hjournal]

end FlowControl.Course
