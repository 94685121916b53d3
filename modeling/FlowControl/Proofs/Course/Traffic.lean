import FlowControl.Proofs.Course.Limit
import FlowControl.Proofs.Course.Thresholds

/-!
# The verdict and the traffic of a window

Every operation on the way from the counts of a window to the ratio of its rates rounds, and none
of them turns an order around. So a window with more acknowledgments, or with fewer messages, has
no smaller ratio, and the verdict on it is no worse. Where no less was acknowledged than sent the
ratio is at least one, which is no less than any high ratio, and such a window never lowers the
limit.
-/

namespace FlowControl

open Binary64

/-- One verdict is no worse than another one under the same tuning. -/
structure Verdict.NoWorse (tuning : Tuning) (verdict other : Verdict) : Prop where
  ratio_le : other.ratio ≤ verdict.ratio
  keepsUp : tuning.highRatio ≤ other.ratio → tuning.highRatio ≤ verdict.ratio
  fallsBehind : verdict.ratio < tuning.highRatio → other.ratio < tuning.highRatio
  overloaded : verdict.overloaded = true → other.overloaded = true

namespace Tuning

variable {tuning : Tuning} {current current' : Float} {high low factor : ℚ} {window : Span}
  {acknowledged acknowledged' sent sent' : UInt64}

/-- More acknowledgments and fewer messages make no smaller ratio. -/
theorem exists_ratio_le (hempty : window.nanos ≠ 0) (hsent' : sent' ≠ 0)
    (hacknowledged : acknowledged ≤ acknowledged') (hsent : sent' ≤ sent) :
    ∃ r r' : ℚ,
      HasSize (ratio (Meter.perSecond window acknowledged) (Meter.perSecond window sent)) r ∧
      HasSize (ratio (Meter.perSecond window acknowledged') (Meter.perSecond window sent')) r' ∧
      r ≤ r' := by
  have hpos' : 0 < sent'.toNat := toNat_pos_of_ne_zero hsent'
  have hpos : 0 < sent.toNat := hpos'.trans_le (UInt64.le_iff_toNat_le.mp hsent)
  refine ⟨_, _, hasSize_ratio_perSecond hempty hpos, hasSize_ratio_perSecond hempty hpos', ?_⟩
  have hnonneg (count : UInt64) : 0 ≤ Meter.perSecondSize window count :=
    (Meter.hasSize_perSecond window count).representable.nonneg
  refine nearest_mono (div_nonneg (hnonneg _) (hnonneg _)) ?_
  exact div_le_div₀ (hnonneg _) (Meter.perSecondSize_mono hempty hacknowledged)
    (Meter.perSecondSize_pos hempty hpos') (Meter.perSecondSize_mono hempty hsent)

/-- More acknowledgments and fewer messages make no worse verdict, whatever the limits are. -/
theorem Accepted.noWorse (h : Accepted tuning high low factor) (hempty : window.nanos ≠ 0)
    (hsent' : sent' ≠ 0) (hacknowledged : acknowledged ≤ acknowledged') (hsent : sent' ≤ sent) :
    (tuning.verdict current' (Meter.perSecond window acknowledged')
      (Meter.perSecond window sent')).NoWorse tuning
        (tuning.verdict current (Meter.perSecond window acknowledged)
          (Meter.perSecond window sent)) := by
  obtain ⟨r, r', hr, hr', hle⟩ := exists_ratio_le hempty hsent' hacknowledged hsent
  have hle' : (r : WithTop ℚ) ≤ r' := WithTop.coe_le_coe.mpr hle
  constructor
  case ratio_le =>
    rw [verdict_ratio, verdict_ratio, hr.le_iff hr']
    exact hle'
  case keepsUp =>
    rw [verdict_ratio, verdict_ratio, h.hasSize_high.le_iff hr, h.hasSize_high.le_iff hr']
    exact fun hkeeps => hkeeps.trans hle'
  case fallsBehind =>
    rw [verdict_ratio, verdict_ratio, hr.lt_iff h.hasSize_high, hr'.lt_iff h.hasSize_high]
    exact hle'.trans_lt
  case overloaded =>
    rw [h.overloaded_iff hr, h.overloaded_iff hr']
    exact hle.trans

/-- Where no less was acknowledged than sent, the peer is not overloaded and the verdict asks for no
smaller limit. -/
theorem Accepted.exists_le_rate (h : Accepted tuning high low factor) {s : WithTop ℚ}
    (hs : HasSize current s) (hempty : window.nanos ≠ 0) (hle : sent ≤ acknowledged) :
    let verdict := tuning.verdict current (Meter.perSecond window acknowledged)
      (Meter.perSecond window sent)
    verdict.overloaded = false ∧ ∃ t, HasSize verdict.rate t ∧ s ≤ t := by
  intro verdict
  have hincoming := Meter.hasSize_perSecond window acknowledged
  have houtgoing := Meter.hasSize_perSecond window sent
  have hfollows : verdict.Follows tuning high low (countShare acknowledged sent) :=
    h.follows hempty acknowledged sent
  obtain ⟨hkeeps, hflag⟩ := hfollows.keepsUp_of_one_le (one_le_countShare_iff.mpr hle)
  rw [verdict_ratio] at hkeeps
  have hlt : ¬ ratio (Meter.perSecond window acknowledged) (Meter.perSecond window sent) <
      tuning.highRatio := by
    rw [h.lt_high_iff hincoming houtgoing]
    exact not_not_intro hkeeps
  refine ⟨hflag, ?_⟩
  rcases h.verdict_rate_of_not_lt hs hincoming houtgoing hlt with
    hsame | ⟨hless, hadopted⟩ | ⟨_, _, _, t, ht, hgrown, _⟩
  · exact ⟨s, hsame ▸ hs, le_rfl⟩
  · exact ⟨_, hadopted ▸ hincoming, hless.le⟩
  · exact ⟨t, ht, hgrown⟩

end Tuning

namespace Course

variable {policy : Policy} {course : Course} {acknowledged sent : UInt64}

/-- A course with the given counts in its open window: what is missing of them is recorded. -/
def withTraffic (policy : Policy) (course : Course) (acknowledged sent : UInt64) : Course :=
  course.run policy
    [.record .incoming (acknowledged - course.flow.incoming.count),
      .record .outgoing (sent - course.flow.outgoing.count)]

/-- Other traffic leaves the limit as it is. -/
@[simp] theorem withTraffic_rate :
    (course.withTraffic policy acknowledged sent).flow.rate = course.flow.rate := rfl

/-- What is recorded in an open window does not decide whether it closes. -/
theorem withTraffic_closes_iff :
    (course.withTraffic policy acknowledged sent).Closes policy ↔ course.Closes policy := by
  rw [closes_iff_isDue, closes_iff_isDue]
  rfl

/-- The counts are the given ones. -/
theorem counts_withTraffic {acknowledged' sent' : UInt64}
    (h : policy.Counts course.flow acknowledged' sent') (acknowledged sent : UInt64) :
    policy.Counts (course.withTraffic policy acknowledged sent).flow acknowledged sent := by
  have hfill (count missing : UInt64) : missing + (count - missing) = count := by
    rw [UInt64.add_comm, UInt64.sub_add_cancel]
  constructor
  · change course.flow.incoming.record _ = _
    rw [h.incoming_eq, Meter.record, hfill]
  · change course.flow.outgoing.record _ = _
    rw [h.outgoing_eq, Meter.record, hfill]

/-- **The verdict is monotone in the traffic.** Under a tuning that passed its check, wherever a run
of a new flow comes to the end of a window: of two counts of the window, the one with no fewer
acknowledgments and no more messages, but some, gets no worse verdict. It keeps up if the other one
does, and it leaves the peer overloaded only if the other one does. And where no less was
acknowledged than sent, be it that nothing was sent, the peer is left not overloaded and with no
smaller limit. -/
theorem verdict_monotone (policy : Policy) (peer : Peer) (millis : UInt64)
    {high low factor : Float} (hcheck : Tuning.check high low factor = .ok policy.tuning)
    (steps : List Step) :
    let course := (start policy peer millis).run policy steps
    let verdict acknowledged sent :=
      policy.verdict (course.withTraffic policy acknowledged sent).flow
    let after acknowledged sent :=
      ((course.withTraffic policy acknowledged sent).step policy .judge).flow
    course.Closes policy →
      (∀ acknowledged acknowledged' sent sent', sent' ≠ 0 → acknowledged ≤ acknowledged' →
        sent' ≤ sent →
        (verdict acknowledged' sent').NoWorse policy.tuning (verdict acknowledged sent) ∧
        ((after acknowledged' sent').overloaded = true →
          (after acknowledged sent).overloaded = true)) ∧
      ∀ acknowledged sent, sent ≤ acknowledged →
        (after acknowledged sent).overloaded = false ∧
        course.flow.rate ≤ (after acknowledged sent).rate := by
  intro course verdict after hcloses
  obtain ⟨p, q, r, haccepted⟩ := Tuning.exists_accepted hcheck
  have hempty := policy.window_nanos_ne_zero
  have hcounts := counts_withTraffic (counts_run policy peer millis steps)
  have hverdict (acknowledged sent : UInt64) : verdict acknowledged sent =
      policy.tuning.verdict course.flow.rate (Meter.perSecond policy.window acknowledged)
        (Meter.perSecond policy.window sent) :=
    (hcounts acknowledged sent).verdict_eq
  have hafter (acknowledged sent : UInt64) : after acknowledged sent =
      (course.withTraffic policy acknowledged sent).flow.close course.clock.now
        (verdict acknowledged sent) :=
    (withTraffic_closes_iff.mpr hcloses).flow_step
  have hflag (acknowledged sent : UInt64) :
      (after acknowledged sent).overloaded = (verdict acknowledged sent).overloaded := by
    rw [hafter]
    rfl
  constructor
  · intro acknowledged acknowledged' sent sent' hsent' hacknowledged hsent
    have hnoWorse : (verdict acknowledged' sent').NoWorse policy.tuning
        (verdict acknowledged sent) := by
      rw [hverdict, hverdict]
      exact haccepted.noWorse hempty hsent' hacknowledged hsent
    refine ⟨hnoWorse, ?_⟩
    rw [hflag, hflag]
    exact hnoWorse.overloaded
  · intro acknowledged sent hle
    obtain ⟨s, hs⟩ : ∃ s, HasSize course.flow.rate s :=
      exists_hasSize_run policy peer millis steps
    obtain ⟨hnot, t, ht, hst⟩ := haccepted.exists_le_rate hs hempty hle
    rw [← hverdict] at hnot ht
    have hbefore : HasSize (course.withTraffic policy acknowledged sent).flow.rate s := by
      rwa [withTraffic_rate]
    refine ⟨(hflag acknowledged sent).trans hnot, ?_⟩
    rw [hafter, Flow.rate_close_eq hbefore ht]
    exact (hs.le_iff ht).mpr hst

/-- Of a hundred messages of a second nothing is acknowledged, and the peer is overloaded. With
fifty acknowledgments it would not have been, and with a hundred a limit of two and a half is not
lowered. -/
theorem verdict_monotone_hundred :
    let policy : Policy := ⟨⟨0.9, 0.1, 10⟩, .ofMillis 1000, by decide⟩
    let second : Step := .move (.advance (.ofMillis 1000))
    let steps : List Step :=
      [.record .outgoing 10, .record .incoming 5, second, .judge, .record .outgoing 7, second]
    let course := (start policy "peer" 0).run policy steps
    let after acknowledged sent :=
      ((course.withTraffic policy acknowledged sent).step policy .judge).flow
    Tuning.check 0.9 0.1 10 = .ok policy.tuning ∧ course.Closes policy ∧
      (after 0 100).overloaded = true ∧ (after 50 100).overloaded = false ∧
      (50 : UInt64) ≠ 0 ∧ (50 : UInt64) ≤ 60 ∧ (50 : UInt64) ≤ 100 ∧
      (after 60 50).overloaded = false ∧ course.flow.rate = 2.5 ∧ 2.5 ≤ (after 100 100).rate := by
  intro policy second steps course after
  have hcheck : Tuning.check 0.9 0.1 10 = .ok policy.tuning := rfl
  have hcloses : course.Closes policy := by decide +kernel
  have hrate : course.flow.rate = 2.5 := by decide +kernel
  have hhalf : (after 50 100).overloaded = false := by decide +kernel
  obtain ⟨hmonotone, hkeeps⟩ := verdict_monotone policy "peer" 0 hcheck steps hcloses
  have hmore : (after 60 50).overloaded = true → (after 50 100).overloaded = true :=
    (hmonotone 50 60 100 50 (by decide) (by decide) (by decide)).2
  refine ⟨hcheck, hcloses, by decide +kernel, hhalf, by decide, by decide, by decide, ?_, hrate, ?_⟩
  · rw [hhalf] at hmore
    exact Bool.eq_false_of_not_eq_true fun hover => Bool.false_ne_true (hmore hover)
  · exact hrate ▸ (hkeeps 100 100 (by decide)).2

end Course

end FlowControl
