import FlowControl.Flow.Basic
import FlowControl.Time.ManualClock

/-!
# The course of a flow

A flow and the manual clock that it is judged by, and what can happen to the two: traffic is
counted, the clock is moved, the flow is judged. A run is any list of these steps, so what is
proved of runs holds for every order of them.
-/

namespace FlowControl

/-- A flow and the clock that it is judged by. -/
structure Course where
  clock : ManualClock
  flow : Flow

namespace Course

/-- What can happen to a flow and its clock. -/
inductive Step where
  /-- The clock moves. -/
  | move (move : ManualClock.Move)
  /-- Traffic is counted. -/
  | record (direction : Direction) (events : UInt64)
  /-- The flow is judged at the reading of the clock. -/
  | judge
  deriving DecidableEq

/-- A new flow to a peer, under a clock that shows any time. -/
def start (policy : Policy) (peer : Peer) (millis : UInt64) : Course :=
  ⟨⟨millis⟩, policy.newFlow peer⟩

/-- The course after one step. -/
def step (policy : Policy) (course : Course) : Step → Course
  | .move move => { course with clock := course.clock.move move }
  | .record direction events => { course with flow := course.flow.record direction events }
  | .judge => { course with flow := (policy.judge course.clock.now course.flow).1 }

/-- What is told of one step. -/
def tells (policy : Policy) (course : Course) : Step → List Event
  | .move _ => []
  | .record _ _ => []
  | .judge => (policy.judge course.clock.now course.flow).2

/-- The course after a run. -/
def run (policy : Policy) (course : Course) (steps : List Step) : Course :=
  steps.foldl (step policy) course

/-- What is told of a run. -/
def journal (policy : Policy) : Course → List Step → List Event
  | _, [] => []
  | course, step :: steps =>
    course.tells policy step ++ journal policy (course.step policy step) steps

/-- Judging the flow now closes a window: it then counts another closed one. -/
def Closes (policy : Policy) (course : Course) : Prop :=
  (course.step policy .judge).flow.windowsClosed ≠ course.flow.windowsClosed

instance (policy : Policy) (course : Course) : Decidable (course.Closes policy) := by
  unfold Closes
  infer_instance

variable {policy : Policy} {course : Course}

/-- Without steps nothing changes. -/
@[simp] theorem run_nil : course.run policy [] = course := rfl

/-- A run takes its first step and runs on from there. -/
@[simp] theorem run_cons (step : Step) (steps : List Step) :
    course.run policy (step :: steps) = (course.step policy step).run policy steps := rfl

/-- A run of two parts goes on where the first part ended. -/
theorem run_append (first second : List Step) :
    course.run policy (first ++ second) = (course.run policy first).run policy second :=
  List.foldl_append

/-- The journal of a run of two parts is that of the first part and then that of the second. -/
theorem journal_append (first second : List Step) :
    course.journal policy (first ++ second) =
      course.journal policy first ++ (course.run policy first).journal policy second := by
  induction first generalizing course with
  | nil => rfl
  | cons step steps ih =>
    rw [List.cons_append, journal, journal, ih, List.append_assoc, run_cons]

/-- What every step keeps, every run keeps. -/
theorem run_preserves {P : Course → Prop}
    (hstep : ∀ (course : Course) (step : Step), P course → P (course.step policy step))
    (h : P course) (steps : List Step) : P (course.run policy steps) := by
  induction steps generalizing course with
  | nil => exact h
  | cons step steps ih => exact ih (hstep course step h)

end Course

/-- A window takes at least a millisecond. -/
theorem Policy.window_pos (policy : Policy) : 0 < policy.window.millis.toNat := by
  apply Nat.pos_of_ne_zero
  intro hzero
  exact policy.window_ne_zero (UInt64.toNat_inj.mp hzero)

namespace Flow

variable {flow : Flow} {direction : Direction}

/-- A full window has passed when the clock has come that far, in whole numbers. Since a
window is not empty, a clock that has gone back has not come so far. -/
theorem isDue_iff {policy : Policy} {now : UInt64} :
    flow.isDue policy.window now = true ↔
      flow.lastDecision.toNat + policy.window.millis.toNat ≤ now.toNat := by
  have hwindow := policy.window_pos
  rw [isDue, decide_eq_true_eq]
  omega

/-- To record traffic does not change the limit. -/
@[simp] theorem record_rate (events : UInt64) :
    (flow.record direction events).rate = flow.rate := by
  cases direction <;> rfl

/-- To record traffic decides nothing. -/
@[simp] theorem record_lastDecision (events : UInt64) :
    (flow.record direction events).lastDecision = flow.lastDecision := by
  cases direction <;> rfl

/-- To record traffic closes no window. -/
@[simp] theorem record_windowsClosed (events : UInt64) :
    (flow.record direction events).windowsClosed = flow.windowsClosed := by
  cases direction <;> rfl

end Flow

namespace Policy

variable {policy : Policy} {flow : Flow} {now : UInt64}

/-- A flow whose window is over is closed with the verdict on it. -/
theorem judge_of_isDue (h : flow.isDue policy.window now = true) :
    policy.judge now flow =
      (flow.close now (policy.verdict flow),
        .windowClosed flow.peer flow.rate (policy.verdict flow)
          :: Flow.transition flow.peer flow.overloaded (policy.verdict flow)) :=
  if_pos h

/-- A flow whose window is open stays as it is, and nothing is told. -/
theorem judge_of_not_isDue (h : ¬ flow.isDue policy.window now = true) :
    policy.judge now flow = (flow, []) :=
  if_neg h

end Policy

namespace Course

variable {policy : Policy} {course : Course}

/-- Judging closes a window exactly when a full window has passed. -/
theorem closes_iff_isDue :
    course.Closes policy ↔ course.flow.isDue policy.window course.clock.now = true := by
  by_cases h : course.flow.isDue policy.window course.clock.now = true
  · refine iff_of_true ?_ h
    simp [Closes, step, Policy.judge_of_isDue h, Flow.close]
  · refine iff_of_false ?_ h
    simp [Closes, step, Policy.judge_of_not_isDue h]

/-- A judgement that closes a window closes it with the verdict on it. -/
theorem Closes.flow_step (h : course.Closes policy) :
    (course.step policy .judge).flow =
      course.flow.close course.clock.now (policy.verdict course.flow) := by
  rw [step, Policy.judge_of_isDue (closes_iff_isDue.mp h)]

/-- A judgement that closes a window tells the verdict on it. -/
theorem Closes.tells_judge (h : course.Closes policy) :
    course.tells policy .judge =
      .windowClosed course.flow.peer course.flow.rate (policy.verdict course.flow)
        :: Flow.transition course.flow.peer course.flow.overloaded
          (policy.verdict course.flow) := by
  rw [tells, Policy.judge_of_isDue (closes_iff_isDue.mp h)]

/-- A judgement that closes no window changes nothing. -/
theorem step_judge_of_not_closes (h : ¬ course.Closes policy) :
    course.step policy .judge = course := by
  rw [step, Policy.judge_of_not_isDue (mt closes_iff_isDue.mpr h)]

/-- Every step closes a window or does not. -/
theorem closes_or_not (policy : Policy) (course : Course) (step : Step) :
    (step = .judge ∧ course.Closes policy) ∨ (step = .judge → ¬ course.Closes policy) := by
  by_cases h : step = .judge ∧ course.Closes policy
  · exact Or.inl h
  · exact Or.inr (not_and.mp h)

/-- A step that closes no window tells nothing. -/
theorem tells_of_not_closes {step : Step} (h : step = .judge → ¬ course.Closes policy) :
    course.tells policy step = [] := by
  cases step with
  | move _ => rfl
  | record _ _ => rfl
  | judge => rw [tells, Policy.judge_of_not_isDue (mt closes_iff_isDue.mpr (h rfl))]

/-- A step that closes no window counts traffic or leaves the flow as it is. -/
theorem flow_step_of_not_closes {step : Step} (h : step = .judge → ¬ course.Closes policy) :
    (course.step policy step).flow = course.flow ∨
      ∃ direction events,
        (course.step policy step).flow = course.flow.record direction events := by
  cases step with
  | move _ => exact Or.inl rfl
  | record direction events => exact Or.inr ⟨direction, events, rfl⟩
  | judge => exact Or.inl (by rw [step_judge_of_not_closes (h rfl)])

end Course

end FlowControl
