import FlowControl.Proofs.Course.Basic
import FlowControl.Proofs.Flow.Law
import FlowControl.Proofs.Flow.Rates

/-!
# The limit of a flow

Whatever the tuning is, the limit is infinite or a finite number whose sign bit is clear: what a
verdict asks for is made fit to be a limit, unless it is equal to the limit that there is.
-/

namespace FlowControl

open Binary64

namespace Flow

variable {flow : Flow} {now : UInt64} {verdict : Verdict} {s t : WithTop ℚ}

/-- The limit after a window is closed. -/
theorem rate_close : (flow.close now verdict).rate =
    if verdict.rate == flow.rate then flow.rate else Allowance.clamp verdict.rate := by
  unfold close rate
  split <;> rfl

/-- A limit with a clear sign bit keeps it clear, whatever the verdict is. -/
theorem exists_hasSize_close (hs : HasSize flow.rate s) :
    ∃ t, HasSize (flow.close now verdict).rate t := by
  rw [rate_close]
  split_ifs with heq
  · exact ⟨s, hs⟩
  · exact Allowance.exists_hasSize_clamp verdict.rate

/-- A verdict with a clear sign bit is taken as it is: an equal limit is the same number. -/
theorem rate_close_eq (hs : HasSize flow.rate s) (ht : HasSize verdict.rate t) :
    (flow.close now verdict).rate = verdict.rate := by
  rw [rate_close]
  split_ifs with heq
  · rw [ht.beq_iff hs] at heq
    exact hs.eq_of_eq ht heq.symm
  · exact Allowance.clamp_eq ht

end Flow

namespace Course

variable {policy : Policy} {course : Course}

/-- A step that closes no window leaves the limit as it is. -/
theorem rate_step_of_not_closes {step : Step} (h : step = .judge → ¬ course.Closes policy) :
    (course.step policy step).flow.rate = course.flow.rate := by
  obtain hsame | ⟨direction, events, hrecord⟩ := flow_step_of_not_closes h
  · rw [hsame]
  · rw [hrecord, Flow.record_rate]

/-- Every step keeps the sign bit of the limit clear. -/
theorem exists_hasSize_step {s : WithTop ℚ} (hs : HasSize course.flow.rate s) (step : Step) :
    ∃ t, HasSize (course.step policy step).flow.rate t := by
  obtain ⟨rfl, hcloses⟩ | hopen := closes_or_not policy course step
  · rw [hcloses.flow_step]
    exact Flow.exists_hasSize_close hs
  · rw [rate_step_of_not_closes hopen]
    exact ⟨s, hs⟩

/-- After every run of a new flow the sign bit of the limit is clear. -/
theorem exists_hasSize_run (policy : Policy) (peer : Peer) (millis : UInt64)
    (steps : List Step) :
    ∃ s, HasSize ((start policy peer millis).run policy steps).flow.rate s := by
  have hstart : HasSize (start policy peer millis).flow.rate ⊤ := hasSize_unbounded
  apply run_preserves (P := fun course => ∃ s, HasSize course.flow.rate s)
  · rintro course step ⟨s, hs⟩
    exact exists_hasSize_step hs step
  · exact ⟨⊤, hstart⟩

/-- **The limit is never negative and never no number.** At every point of every run of a new
flow, whatever the tuning is, the limit is infinite or finite and at least zero, its sign bit is
clear, and a verdict now would never ask for a zero whose sign bit is set. -/
theorem limit_nonneg (policy : Policy) (peer : Peer) (millis : UInt64) (steps : List Step) :
    let flow := ((start policy peer millis).run policy steps).flow
    (flow.rate = unbounded ∨ flow.rate.isFinite = true ∧ 0 ≤ flow.rate) ∧
    flow.rate.isNaN = false ∧ flow.rate.toBits.toNat < 2 ^ 63 ∧
    (policy.verdict flow).rate.toBits ≠ 0x8000000000000000 := by
  intro flow
  obtain ⟨s, hs⟩ := exists_hasSize_run policy peer millis steps
  have hunsigned := exists_hasSize_iff.mp ⟨s, hs⟩
  refine ⟨?_, hunsigned.1, hunsigned.2, ?_⟩
  · by_cases hinfinite : s = ⊤
    · exact Or.inl (hs.eq_of_eq hasSize_unbounded hinfinite)
    · exact Or.inr ⟨hs.isFinite_iff.mpr hinfinite, (hasSize_zero.le_iff hs).mpr hs.nonneg⟩
  · intro hbits
    exact Tuning.verdict_rate_ne_neg_zero hs (Meter.hasSize_rate _) (Meter.hasSize_rate _)
      (unpacked_of_toBits hbits)

end Course

end FlowControl
