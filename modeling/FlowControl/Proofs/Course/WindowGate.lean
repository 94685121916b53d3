import FlowControl.Proofs.Course.Basic
import Mathlib.Algebra.Order.Ring.Nat

/-!
# The window gate

A window closes exactly when the clock has come a full window past the last decision, however
the clock moved before. What carries this through a run is an account of the time that the
closed windows took: each of them moved the last decision on by a window at least, so their
number is bounded by a word and never wraps.
-/

namespace FlowControl.Course

variable {policy : Policy} {course : Course}

/-- A window closes exactly when the clock has come a full window past the last decision. -/
theorem closes_iff :
    course.Closes policy ↔
      course.flow.lastDecision.toNat + policy.window.millis.toNat ≤ course.clock.now.toNat :=
  closes_iff_isDue.trans Flow.isDue_iff

/-- Closing a window moves the last decision to the reading of the clock. -/
theorem Closes.lastDecision_step (h : course.Closes policy) :
    (course.step policy .judge).flow.lastDecision = course.clock.now := by
  rw [h.flow_step]
  rfl

/-- Closing a window counts it. -/
theorem Closes.windowsClosed_step (h : course.Closes policy) :
    (course.step policy .judge).flow.windowsClosed = course.flow.windowsClosed + 1 := by
  rw [h.flow_step]
  rfl

/-- A step that closes no window leaves the last decision and the number of closed windows. -/
theorem step_eq_of_not_closes {step : Step} (h : step = .judge → ¬ course.Closes policy) :
    (course.step policy step).flow.lastDecision = course.flow.lastDecision ∧
      (course.step policy step).flow.windowsClosed = course.flow.windowsClosed := by
  obtain hsame | ⟨direction, events, hrecord⟩ := flow_step_of_not_closes h
  · rw [hsame]
    exact ⟨rfl, rfl⟩
  · rw [hrecord]
    exact ⟨Flow.record_lastDecision events, Flow.record_windowsClosed events⟩

/-- Where a step changes the last decision, it closes a window. -/
theorem closes_of_lastDecision_ne {step : Step}
    (h : (course.step policy step).flow.lastDecision ≠ course.flow.lastDecision) :
    step = .judge ∧ course.Closes policy := by
  obtain hcloses | hopen := closes_or_not policy course step
  · exact hcloses
  · exact absurd (step_eq_of_not_closes hopen).1 h

/-- A step that changes the last decision moves it on by a window at least. -/
theorem lastDecision_add_window_le {step : Step}
    (h : (course.step policy step).flow.lastDecision ≠ course.flow.lastDecision) :
    course.flow.lastDecision.toNat + policy.window.millis.toNat ≤
      (course.step policy step).flow.lastDecision.toNat := by
  obtain ⟨rfl, hcloses⟩ := closes_of_lastDecision_ne h
  rw [hcloses.lastDecision_step]
  exact closes_iff.mp hcloses

/-- No step moves the last decision back. -/
theorem lastDecision_le_step (step : Step) :
    course.flow.lastDecision ≤ (course.step policy step).flow.lastDecision := by
  by_cases h : (course.step policy step).flow.lastDecision = course.flow.lastDecision
  · rw [h]
    exact UInt64.le_refl _
  · have := lastDecision_add_window_le h
    rw [UInt64.le_iff_toNat_le]
    omega

/-- No run moves the last decision back. -/
theorem lastDecision_le_run (steps : List Step) :
    course.flow.lastDecision ≤ (course.run policy steps).flow.lastDecision := by
  apply run_preserves (P := fun later => course.flow.lastDecision ≤ later.flow.lastDecision)
  · intro later step h
    exact UInt64.le_trans h (lastDecision_le_step step)
  · exact UInt64.le_refl _

/-- The closed windows fit, one after the other, between the start of the clock and the last
decision. This is the invariant that keeps their number from wrapping. -/
def WindowsFit (policy : Policy) (course : Course) : Prop :=
  course.flow.windowsClosed.toNat * policy.window.millis.toNat ≤ course.flow.lastDecision.toNat

/-- Closing a window adds one to the number of closed windows without a wrap. -/
theorem Closes.toNat_windowsClosed_step (h : course.Closes policy)
    (hfit : course.WindowsFit policy) :
    (course.step policy .judge).flow.windowsClosed.toNat =
      course.flow.windowsClosed.toNat + 1 := by
  have hdue := closes_iff.mp h
  have hnow := course.clock.now.toNat_lt
  have hwindow := policy.window_pos
  have hcount : course.flow.windowsClosed.toNat ≤ course.flow.lastDecision.toNat :=
    le_trans (Nat.le_mul_of_pos_right _ hwindow) hfit
  rw [h.windowsClosed_step, UInt64.toNat_add, UInt64.toNat_one]
  omega

/-- Every step keeps the closed windows within the time before the last decision. -/
theorem WindowsFit.step (hfit : course.WindowsFit policy) (step : Step) :
    (course.step policy step).WindowsFit policy := by
  obtain ⟨rfl, hcloses⟩ | hopen := closes_or_not policy course step
  · have hdue := closes_iff.mp hcloses
    unfold WindowsFit at hfit ⊢
    rw [hcloses.toNat_windowsClosed_step hfit, hcloses.lastDecision_step, Nat.add_one_mul]
    omega
  · obtain ⟨hlast, hcount⟩ := step_eq_of_not_closes hopen
    unfold WindowsFit at hfit ⊢
    rwa [hlast, hcount]

/-- The closed windows of a new flow fit, for there are none. -/
theorem windowsFit_start (policy : Policy) (peer : Peer) (millis : UInt64) :
    (start policy peer millis).WindowsFit policy := by
  simp [WindowsFit, start, Policy.newFlow, Flow.start]

/-- After every run of a new flow the closed windows fit. -/
theorem windowsFit_run (policy : Policy) (peer : Peer) (millis : UInt64) (steps : List Step) :
    ((start policy peer millis).run policy steps).WindowsFit policy :=
  run_preserves (fun _ step h => h.step step) (windowsFit_start policy peer millis) steps

/-- How often a run changes the moment of the last decision. -/
def decisions (policy : Policy) : Course → List Step → ℕ
  | _, [] => 0
  | course, step :: steps =>
    (if (course.step policy step).flow.lastDecision = course.flow.lastDecision then 0 else 1) +
      decisions policy (course.step policy step) steps

/-- A window that closes takes some time, so the last decision changes. -/
theorem Closes.lastDecision_ne (h : course.Closes policy) :
    (course.step policy .judge).flow.lastDecision ≠ course.flow.lastDecision := by
  have hdue := closes_iff.mp h
  have hwindow := policy.window_pos
  rw [h.lastDecision_step, ne_eq, ← UInt64.toNat_inj]
  omega

/-- A run adds to the number of closed windows as many as it changes the last decision. -/
theorem toNat_windowsClosed_run (hfit : course.WindowsFit policy) (steps : List Step) :
    (course.run policy steps).flow.windowsClosed.toNat =
      course.flow.windowsClosed.toNat + course.decisions policy steps := by
  induction steps generalizing course with
  | nil => rfl
  | cons step steps ih =>
    rw [run_cons, ih (hfit.step step), decisions]
    obtain ⟨rfl, hcloses⟩ | hopen := closes_or_not policy course step
    · rw [hcloses.toNat_windowsClosed_step hfit, if_neg hcloses.lastDecision_ne]
      omega
    · obtain ⟨hlast, hcount⟩ := step_eq_of_not_closes hopen
      rw [hcount, if_pos hlast, Nat.zero_add]

/-- **The window gate.** At every point of every run of a new flow, whatever the clock did:
judging closes the window exactly when the clock has come a full window past the last decision,
and that becomes the reading of the clock; a judgement that closes no window changes nothing and
tells nothing; and the last decision never goes back, changes by a window at least, and has
changed as often as windows were closed, all of which fit before it. -/
theorem window_gate (policy : Policy) (peer : Peer) (millis : UInt64) (steps : List Step) :
    let course := (start policy peer millis).run policy steps
    let window := policy.window.millis.toNat
    (course.Closes policy ↔
      course.flow.lastDecision.toNat + window ≤ course.clock.now.toNat) ∧
    (course.Closes policy →
      (course.step policy .judge).flow.lastDecision = course.clock.now) ∧
    (¬ course.Closes policy →
      course.step policy .judge = course ∧ course.tells policy .judge = []) ∧
    (∀ more, course.flow.lastDecision ≤ (course.run policy more).flow.lastDecision) ∧
    (∀ step, (course.step policy step).flow.lastDecision ≠ course.flow.lastDecision →
      course.flow.lastDecision.toNat + window ≤
        (course.step policy step).flow.lastDecision.toNat) ∧
    course.flow.windowsClosed.toNat = (start policy peer millis).decisions policy steps ∧
    course.flow.windowsClosed.toNat * window ≤ course.flow.lastDecision.toNat := by
  intro course window
  have hcount := toNat_windowsClosed_run (windowsFit_start policy peer millis) steps
  have hstart : (start policy peer millis).flow.windowsClosed.toNat = 0 := rfl
  rw [hstart, Nat.zero_add] at hcount
  exact ⟨closes_iff, Closes.lastDecision_step,
    fun h => ⟨step_judge_of_not_closes h, tells_of_not_closes fun _ => h⟩,
    lastDecision_le_run, fun _ => lastDecision_add_window_le, hcount,
    windowsFit_run policy peer millis steps⟩

end FlowControl.Course
