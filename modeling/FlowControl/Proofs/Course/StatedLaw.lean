import FlowControl.Proofs.Binary64.Order
import FlowControl.Proofs.Course.Replay
import FlowControl.Proofs.Policy.Validated

/-!
# The law as it is stated

The control law is stated in plain cases: whether nothing was sent is asked of the rate of messages
itself, the ratio is compared from below, and every rate that is asked for is stored, a negative
one and what is no number as zero. What is done at the end of a window is put otherwise: it asks
whether something was sent, and it stores only a rate that differs from the limit. The two differ
on negative rates, on what is no number and on the signs of zeros. None of these arises in a flow,
whatever its tuning was made of, so no run tells the two apart.
-/

namespace FlowControl

open Binary64

/-- A rate as it is stored: a negative one and what is no number become zero. -/
def Allowance.store (rate : Float) : Float := if rate.isNaN ∨ rate < 0 then 0 else rate

namespace Tuning

/-- The share of sent traffic that was acknowledged, one if the rate of messages is zero. -/
def statedRatio (incoming outgoing : Float) : Float :=
  if outgoing == 0 then 1 else incoming / outgoing

/-- The verdict that the law states, case by case. -/
def statedVerdict (tuning : Tuning) (current incoming outgoing : Float) : Verdict :=
  let share := statedRatio incoming outgoing
  if share < tuning.highRatio then
    ⟨incoming, outgoing, share, incoming * share, decide (share ≤ tuning.lowRatio)⟩
  else if current.isFinite ∧ current < outgoing then
    ⟨incoming, outgoing, share, current + current / tuning.factor, false⟩
  else if outgoing == 0 ∧ current < incoming then
    ⟨incoming, outgoing, share, incoming, false⟩
  else
    ⟨incoming, outgoing, share, current, false⟩

end Tuning

/-- What the law states for a flow: at the end of a window it is left with the rate and the flag of
the stated verdict, and this is told. -/
def Policy.statedJudge (policy : Policy) (now : UInt64) (flow : Flow) : Flow × List Event :=
  if flow.isDue policy.window now then
    let verdict := policy.tuning.statedVerdict flow.rate flow.incoming.rate flow.outgoing.rate
    ({ flow with
        incoming := flow.incoming.reset
        outgoing := flow.outgoing.reset
        allowance := ⟨Allowance.store verdict.rate⟩
        overloaded := verdict.overloaded
        lastDecision := now
        windowsClosed := flow.windowsClosed + 1 },
      .windowClosed flow.peer flow.rate verdict
        :: Flow.transition flow.peer flow.overloaded verdict)
  else
    (flow, [])

namespace Allowance

variable {x : Float}

/-- Clamping stores a rate, unless it is the zero whose sign bit is set. -/
theorem store_eq_clamp (h : unpacked x ≠ .zero .negative) : store x = clamp x := by
  by_cases hsize : ∃ s, HasSize x s
  · obtain ⟨s, hs⟩ := hsize
    have hkeep : ¬ (x.isNaN = true ∨ x < 0) := by
      rw [hs.isNaN_eq, hs.lt_iff hasSize_zero]
      exact not_or.mpr ⟨Bool.false_ne_true, not_lt.mpr hs.nonneg⟩
    rw [store, if_neg hkeep, clamp_eq hs]
  · have hnone : ¬ 0 < x := fun hpos => hsize (exists_hasSize_of_lt hasSize_zero hpos)
    rw [store, if_pos (isNaN_or_lt_zero (not_exists.mp hsize) h), clamp, if_neg hnone]

end Allowance

namespace Tuning

variable {tuning : Tuning} {current incoming outgoing : Float} {p q : ℚ}

/-- Something was sent, or the rate of messages is zero. -/
theorem statedRatio_eq (hq : HasSize outgoing q) :
    statedRatio incoming outgoing = ratio incoming outgoing := by
  have hidle : (outgoing == 0) = true ↔ q = 0 := by
    rw [hq.beq_iff hasSize_zero]
    exact WithTop.coe_eq_zero
  have hsent : 0 < outgoing ↔ 0 < q := by
    rw [hasSize_zero.lt_iff hq]
    exact WithTop.coe_lt_coe
  unfold statedRatio ratio
  rcases hq.representable.nonneg.eq_or_lt with hzero | hpos
  · rw [if_pos (hidle.mpr hzero.symm), if_neg (mt hsent.mp hzero.symm.not_gt)]
  · rw [if_neg (mt hidle.mp hpos.ne'), if_pos (hsent.mpr hpos)]

/-- The verdict is the stated one, if the high ratio is a number. -/
theorem statedVerdict_eq (hhigh : tuning.highRatio.isNaN = false) (hp : HasSize incoming p)
    (hq : HasSize outgoing q) :
    tuning.statedVerdict current incoming outgoing = tuning.verdict current incoming outgoing := by
  have hbelow : ratio incoming outgoing < tuning.highRatio ↔
      ¬ tuning.highRatio ≤ ratio incoming outgoing :=
    (not_le_iff hhigh (hasSize_ratio hp hq).isNaN_eq).symm
  unfold statedVerdict
  dsimp only
  rw [statedRatio_eq hq]
  by_cases hkeeps : tuning.highRatio ≤ ratio incoming outgoing
  · rw [if_neg (mt hbelow.mp (not_not_intro hkeeps)), verdict_of_le hkeeps, relax]
    split_ifs <;> rfl
  · rw [if_pos (hbelow.mpr hkeeps), verdict_of_not_le hkeeps]

/-- The high ratio of a tuning is a number, whatever the tuning was obtained of. -/
theorem Origin.Gives.isNaN_highRatio {origin : Origin} (h : origin.Gives tuning) :
    tuning.highRatio.isNaN = false := by
  have hfinite : tuning.IsFinite := by
    cases origin with
    | numbers high low factor => exact (validated_of_check h).isFinite
    | parameters entries => exact (validated_of_ofParameters h).isFinite
    | json text => exact isFinite_of_decode h
  exact (isNaN_isInf_of_isFinite hfinite.high).1

end Tuning

/-- At the end of a window a flow is left as the law states, if its limit has a clear sign bit. -/
theorem Policy.statedJudge_eq {policy : Policy} {flow : Flow} {s : WithTop ℚ}
    (hhigh : policy.tuning.highRatio.isNaN = false) (hs : HasSize flow.rate s) (now : UInt64) :
    policy.statedJudge now flow = policy.judge now flow := by
  have hincoming := Meter.hasSize_rate flow.incoming
  have houtgoing := Meter.hasSize_rate flow.outgoing
  have hverdict : policy.tuning.statedVerdict flow.rate flow.incoming.rate flow.outgoing.rate =
      policy.verdict flow :=
    Tuning.statedVerdict_eq hhigh hincoming houtgoing
  have hstore : (flow.close now (policy.verdict flow)).rate =
      Allowance.store (policy.verdict flow).rate := by
    rw [Flow.rate_close_eq_clamp hs, Allowance.store_eq_clamp]
    exact Tuning.verdict_rate_ne_neg_zero hs hincoming houtgoing
  by_cases hdue : flow.isDue policy.window now = true
  · rw [statedJudge, if_pos hdue, judge_of_isDue hdue, hverdict]
    dsimp only
    rw [← hstore]
    rfl
  · rw [statedJudge, if_neg hdue, judge_of_not_isDue hdue]

namespace Course

/-- A step under the law as it is stated, and what is told of it. -/
def statedStep (policy : Policy) (course : Course) : Step → Course × List Event
  | .move move => ({ course with clock := course.clock.move move }, [])
  | .record direction events =>
    ({ course with flow := course.flow.record direction events }, [])
  | .judge =>
    let (flow, events) := policy.statedJudge course.clock.now course.flow
    ({ course with flow := flow }, events)

/-- A run under the law as it is stated, and what is told of it. -/
def statedRun (policy : Policy) : Course → List Step → Course × List Event
  | course, [] => (course, [])
  | course, step :: steps =>
    let (next, events) := course.statedStep policy step
    let (last, more) := statedRun policy next steps
    (last, events ++ more)

variable {policy : Policy} {course : Course} {s : WithTop ℚ}

/-- A step is the stated one. -/
theorem statedStep_eq (hhigh : policy.tuning.highRatio.isNaN = false)
    (hs : HasSize course.flow.rate s) (step : Step) :
    course.statedStep policy step = (course.step policy step, course.tells policy step) := by
  cases step with
  | move _ => rfl
  | record _ _ => rfl
  | judge => rw [statedStep, Policy.statedJudge_eq hhigh hs]; rfl

/-- A run is the stated one, for every step keeps the sign bit of the limit clear. -/
theorem statedRun_eq (hhigh : policy.tuning.highRatio.isNaN = false)
    (hs : HasSize course.flow.rate s) (steps : List Step) :
    course.statedRun policy steps = (course.run policy steps, course.journal policy steps) := by
  induction steps generalizing course s with
  | nil => rfl
  | cons step steps ih =>
    obtain ⟨t, ht⟩ := exists_hasSize_step hs step
    rw [statedRun, statedStep_eq hhigh hs]
    dsimp only
    rw [ih ht]
    rfl

/-- **Judging a flow refines the law as it is stated.** Whatever a tuning was obtained of, checked
or not: wherever a run of a new flow comes to the end of a window, judging the flow leaves it with
exactly the rate that the law states, stored with nothing else done to it than that a negative one
and what is no number become zero, and with exactly the flag that the law states. So every run of
a new flow, with all that is told of it, is the run under the stated law. -/
theorem refines_stated_law (policy : Policy) {origin : Tuning.Origin}
    (horigin : origin.Gives policy.tuning) (peer : Peer) (millis : UInt64) (steps : List Step) :
    let course := (start policy peer millis).run policy steps
    let after := (course.step policy .judge).flow
    let stated := policy.tuning.statedVerdict course.flow.rate course.flow.incoming.rate
      course.flow.outgoing.rate
    (course.Closes policy →
      after.rate = Allowance.store stated.rate ∧ after.overloaded = stated.overloaded) ∧
    (start policy peer millis).statedRun policy steps =
      (course, (start policy peer millis).journal policy steps) := by
  intro course after stated
  have hhigh := horigin.isNaN_highRatio
  obtain ⟨s, hs⟩ : ∃ s, HasSize course.flow.rate s := exists_hasSize_run policy peer millis steps
  have hstart : HasSize (start policy peer millis).flow.rate ⊤ := hasSize_unbounded
  refine ⟨fun hcloses => ?_, statedRun_eq hhigh hstart steps⟩
  have hjudge : policy.statedJudge course.clock.now course.flow =
      policy.judge course.clock.now course.flow := Policy.statedJudge_eq hhigh hs _
  have hdue := closes_iff_isDue.mp hcloses
  have hafter : after = (policy.statedJudge course.clock.now course.flow).1 :=
    congrArg Prod.fst hjudge.symm
  rw [hafter, Policy.statedJudge, if_pos hdue]
  exact ⟨rfl, rfl⟩

/-- Under a tuning that is read from JSON and that no check would accept, a limit of one that binds
becomes minus one, and it is stored as zero. -/
theorem refines_stated_law_negative :
    let tuning : Tuning := ⟨0.5, 0.1, -0.5⟩
    let policy : Policy := ⟨tuning, .ofMillis 1000, by decide⟩
    let second : Step := .move (.advance (.ofMillis 1000))
    let steps : List Step :=
      [.record .outgoing 100, .record .incoming 10, second, .judge,
        .record .outgoing 10, .record .incoming 10, second]
    let course := (start policy "peer" 0).run policy steps
    let stated := tuning.statedVerdict course.flow.rate course.flow.incoming.rate
      course.flow.outgoing.rate
    (Tuning.Origin.json "[0.5, 0.1, -0.5]").Gives policy.tuning ∧ course.Closes policy ∧
      course.flow.rate = 1 ∧ stated.rate = -1 ∧ (course.step policy .judge).flow.rate = 0 := by
  intro tuning policy second steps course stated
  have hread : (Tuning.decode "[0.5, 0.1, -0.5]").toOption.map Tuning.toRow =
      some (0.5, 0.1, -0.5, ()) := by decide +kernel
  obtain ⟨⟨high, low, factor⟩, hdecode, hrow⟩ := Tuning.exists_decode_of_map hread
  obtain ⟨rfl, rfl, rfl, -⟩ : high = 0.5 ∧ low = 0.1 ∧ factor = -0.5 ∧ True := by
    simpa [Tuning.toRow] using hrow
  have hgives : (Tuning.Origin.json "[0.5, 0.1, -0.5]").Gives policy.tuning := hdecode
  have hcloses : course.Closes policy := by decide +kernel
  have hrate : stated.rate = -1 := by decide +kernel
  have hafter := ((refines_stated_law policy hgives "peer" 0 steps).1 hcloses).1
  refine ⟨hgives, hcloses, by decide +kernel, hrate, hafter.trans ?_⟩
  change Allowance.store stated.rate = 0
  rw [hrate]
  decide +kernel

end Course

end FlowControl
