import FlowControl.Proofs.Course.Counting
import FlowControl.Proofs.Flow.Share

/-!
# Verdicts and the length of a window

Two policies that differ in their windows only see the same peer through different rates. Where
the share of the messages that was acknowledged is clear of the ratios of the tuning, both come
to the verdict that the share asks for. They also agree on a peer that acknowledged no less than
was sent to it, and whenever their windows differ by a power of two. Close to a ratio they may
disagree, so that a share which is exactly the high ratio need not keep up.
-/

namespace FlowControl

open Binary64 Float.Model

/-- A flow that a policy may judge, with so many acknowledgments and messages in its open
window. -/
structure Policy.Counts (policy : Policy) (flow : Flow) (acknowledged sent : UInt64) : Prop where
  incoming_eq : flow.incoming = ⟨policy.window, acknowledged⟩
  outgoing_eq : flow.outgoing = ⟨policy.window, sent⟩

/-- At every point of every run the open window of a flow has its counts. -/
theorem Course.counts_run (policy : Policy) (peer : Peer) (millis : UInt64) (steps : List Step) :
    let flow := ((start policy peer millis).run policy steps).flow
    policy.Counts flow flow.incoming.count flow.outgoing.count := by
  intro flow
  obtain ⟨-, hincoming, houtgoing⟩ := belongsTo_run policy peer millis steps
  exact ⟨congrArg (Meter.mk · flow.incoming.count) hincoming,
    congrArg (Meter.mk · flow.outgoing.count) houtgoing⟩

/-- A window of a millisecond or more is not empty. -/
theorem Policy.window_nanos_ne_zero (policy : Policy) : policy.window.nanos ≠ 0 := by
  intro hzero
  apply policy.window_ne_zero
  rw [Span.millis, hzero]
  rfl

/-- The verdict on a window with its counts. -/
theorem Policy.Counts.verdict_eq {policy : Policy} {flow : Flow} {acknowledged sent : UInt64}
    (h : policy.Counts flow acknowledged sent) :
    policy.verdict flow =
      policy.tuning.verdict flow.rate (Meter.perSecond policy.window acknowledged)
        (Meter.perSecond policy.window sent) := by
  rw [Policy.verdict, h.incoming_eq, h.outgoing_eq]
  rfl

namespace Verdict

/-- Two verdicts take the same branch of the law, and both or none find the peer overloaded. -/
def Agrees (tuning : Tuning) (verdict verdict' : Verdict) : Prop :=
  (tuning.highRatio ≤ verdict.ratio ↔ tuning.highRatio ≤ verdict'.ratio) ∧
    verdict.overloaded = verdict'.overloaded

/-- What a verdict under a tuning with the given ratios owes to the share of its counts. -/
structure Follows (verdict : Verdict) (tuning : Tuning) (high low share : ℚ) : Prop where
  /-- The branch is the one of the share. -/
  keepsUp_iff : ClearOf high share → (tuning.highRatio ≤ verdict.ratio ↔ high ≤ share)
  /-- The peer is overloaded if the share says so. -/
  overloaded_iff : ClearOf low share → (verdict.overloaded = true ↔ share ≤ low)
  /-- Where no less was acknowledged than sent, the peer keeps up. -/
  keepsUp_of_one_le :
    1 ≤ share → tuning.highRatio ≤ verdict.ratio ∧ verdict.overloaded = false

variable {tuning : Tuning} {verdict verdict' : Verdict} {high low share : ℚ}

/-- Verdicts that follow the same share agree where it is clear of the ratios. -/
theorem Follows.agrees (h : verdict.Follows tuning high low share)
    (h' : verdict'.Follows tuning high low share) (hhigh : ClearOf high share)
    (hlow : ClearOf low share) : Agrees tuning verdict verdict' := by
  refine ⟨(h.keepsUp_iff hhigh).trans (h'.keepsUp_iff hhigh).symm, ?_⟩
  rw [Bool.eq_iff_iff]
  exact (h.overloaded_iff hlow).trans (h'.overloaded_iff hlow).symm

/-- Verdicts that follow the same share agree where no less was acknowledged than sent. -/
theorem Follows.agrees_of_one_le (h : verdict.Follows tuning high low share)
    (h' : verdict'.Follows tuning high low share) (hone : 1 ≤ share) :
    Agrees tuning verdict verdict' := by
  obtain ⟨hkeeps, hflag⟩ := h.keepsUp_of_one_le hone
  obtain ⟨hkeeps', hflag'⟩ := h'.keepsUp_of_one_le hone
  exact ⟨iff_of_true hkeeps hkeeps', hflag.trans hflag'.symm⟩

end Verdict

namespace Tuning

variable {tuning : Tuning} {high low factor r : ℚ} {incoming outgoing current : Float}

/-- A peer is overloaded up to the low ratio, which is below the high one. -/
theorem Accepted.overloaded_iff (h : Accepted tuning high low factor)
    (hr : HasSize (ratio incoming outgoing) r) :
    (tuning.verdict current incoming outgoing).overloaded = true ↔ r ≤ low := by
  have hkeeps : tuning.highRatio ≤ ratio incoming outgoing ↔ high ≤ r := by
    rw [h.hasSize_high.le_iff hr]
    exact WithTop.coe_le_coe
  have hlow : ratio incoming outgoing ≤ tuning.lowRatio ↔ r ≤ low := by
    rw [hr.le_iff h.hasSize_low]
    exact WithTop.coe_le_coe
  by_cases hhigh : tuning.highRatio ≤ ratio incoming outgoing
  · rw [verdict_of_le hhigh]
    refine iff_of_false Bool.false_ne_true ?_
    rw [hkeeps] at hhigh
    exact not_le.mpr (h.low_lt_high.trans_le hhigh)
  · rw [verdict_of_not_le hhigh, ← hlow]
    exact decide_eq_true_iff

/-- Verdicts on the same ratio agree. -/
theorem Accepted.agrees_of_ratio_eq (h : Accepted tuning high low factor)
    {incoming' outgoing' current' : Float} (hr : HasSize (ratio incoming outgoing) r)
    (heq : ratio incoming' outgoing' = ratio incoming outgoing) :
    Verdict.Agrees tuning (tuning.verdict current incoming outgoing)
      (tuning.verdict current' incoming' outgoing') := by
  have hr' : HasSize (ratio incoming' outgoing') r := heq ▸ hr
  constructor
  · rw [verdict_ratio, verdict_ratio, heq]
  · rw [Bool.eq_iff_iff, h.overloaded_iff hr, h.overloaded_iff hr']

/-- The share is at least one where no less was acknowledged than sent. -/
theorem one_le_countShare_iff {acknowledged sent : UInt64} :
    1 ≤ countShare acknowledged sent ↔ sent ≤ acknowledged := by
  by_cases hzero : sent = 0
  · rw [hzero, countShare, if_pos rfl]
    exact iff_of_true le_rfl UInt64.zero_le
  · rw [countShare_of_ne_zero hzero, one_le_div (by exact_mod_cast toNat_pos_of_ne_zero hzero),
      Nat.cast_le, UInt64.le_iff_toNat_le]

/-- The verdict on counts follows their share, whatever the window is. -/
theorem Accepted.follows (h : Accepted tuning high low factor) {window : Span}
    (hempty : window.nanos ≠ 0) (acknowledged sent : UInt64) :
    (tuning.verdict current (Meter.perSecond window acknowledged)
      (Meter.perSecond window sent)).Follows tuning high low (countShare acknowledged sent) := by
  obtain ⟨r, hr, hwithin⟩ := exists_hasSize_ratio_within hempty acknowledged sent
  have hkeeps : tuning.highRatio ≤ ratio (Meter.perSecond window acknowledged)
      (Meter.perSecond window sent) ↔ high ≤ r := by
    rw [h.hasSize_high.le_iff hr]
    exact WithTop.coe_le_coe
  have hhigh_pos : 0 < high := h.low_pos.trans h.low_lt_high
  constructor
  · intro hclear
    rw [verdict_ratio, hkeeps]
    rcases hclear.lt_or_lt hhigh_pos hwithin with ⟨hshare, hratio⟩ | ⟨hshare, hratio⟩
    · exact iff_of_true hratio.le hshare.le
    · exact iff_of_false (not_le.mpr hratio) (not_le.mpr hshare)
  · intro hclear
    rw [h.overloaded_iff hr]
    rcases hclear.lt_or_lt h.low_pos hwithin with ⟨hshare, hratio⟩ | ⟨hshare, hratio⟩
    · exact iff_of_false (not_le.mpr hratio) (not_le.mpr hshare)
    · exact iff_of_true hratio.le hshare.le
  · intro hone
    have hratio := one_le_ratio hempty (one_le_countShare_iff.mp hone)
    rw [hasSize_one.le_iff hr] at hratio
    have hr_one : 1 ≤ r := WithTop.coe_le_coe.mp hratio
    rw [verdict_ratio, hkeeps, Bool.eq_false_iff, ne_eq, h.overloaded_iff hr, not_le]
    exact ⟨h.high_le_one.trans hr_one, h.low_lt_high.trans_le (h.high_le_one.trans hr_one)⟩

end Tuning

namespace Policy

variable {policy policy' : Policy} {flow flow' : Flow} {acknowledged sent : UInt64}

/-- **What the verdict owes to the counts.** Two policies with the same checked tuning, whatever
their windows are, judge windows with the same counts. Both verdicts follow the share of the
counts, so they agree where the share is clear of the two ratios, and where no less was
acknowledged than sent. They agree on all counts if the one window has as many seconds as the
other one times a power of two. And in a window of a power of two of seconds a share of exact
counts that reaches the high ratio keeps up. -/
theorem verdicts_agree {high low factor : Float}
    (hcheck : Tuning.check high low factor = .ok policy.tuning)
    (htuning : policy'.tuning = policy.tuning) (hflow : policy.Counts flow acknowledged sent)
    (hflow' : policy'.Counts flow' acknowledged sent) :
    let share := countShare acknowledged sent
    let verdict := policy.verdict flow
    let verdict' := policy'.verdict flow'
    ∃ p q : ℚ, HasSize policy.tuning.highRatio p ∧ HasSize policy.tuning.lowRatio q ∧
      verdict.Follows policy.tuning p q share ∧ verdict'.Follows policy.tuning p q share ∧
      (ClearOf p share → ClearOf q share → Verdict.Agrees policy.tuning verdict verdict') ∧
      (sent ≤ acknowledged → Verdict.Agrees policy.tuning verdict verdict') ∧
      (∀ k : ℤ, policy'.window.secondsSize = policy.window.secondsSize * 2 ^ k →
        Verdict.Agrees policy.tuning verdict verdict') ∧
      (∀ k : ℤ, policy.window.secondsSize = 2 ^ k → acknowledged.toNat ≤ 2 ^ 53 →
        sent.toNat ≤ 2 ^ 53 → p ≤ share → policy.tuning.highRatio ≤ verdict.ratio) := by
  intro share verdict verdict'
  obtain ⟨p, q, r, haccepted⟩ := Tuning.exists_accepted hcheck
  have hempty := policy.window_nanos_ne_zero
  have hempty' := policy'.window_nanos_ne_zero
  have hverdict : verdict = _ := hflow.verdict_eq
  have hverdict' : verdict' = _ := hflow'.verdict_eq
  rw [htuning] at hverdict'
  have hfollows : verdict.Follows policy.tuning p q share := by
    rw [hverdict]
    exact haccepted.follows hempty acknowledged sent
  have hfollows' : verdict'.Follows policy.tuning p q share := by
    rw [hverdict']
    exact haccepted.follows hempty' acknowledged sent
  refine ⟨p, q, haccepted.hasSize_high, haccepted.hasSize_low, hfollows, hfollows',
    hfollows.agrees hfollows', ?_, ?_, ?_⟩
  · intro hle
    exact hfollows.agrees_of_one_le hfollows' (Tuning.one_le_countShare_iff.mpr hle)
  · intro k hk
    obtain ⟨ratio, hratio, -⟩ := Tuning.exists_hasSize_ratio_within hempty acknowledged sent
    rw [hverdict, hverdict']
    exact haccepted.agrees_of_ratio_eq hratio
      (Tuning.ratio_eq_of_mul_two_zpow hempty hempty' hk acknowledged sent)
  · intro k hk hacknowledged hsent hp
    have hratio := Tuning.hasSize_ratio_of_two_zpow hempty hk hacknowledged hsent
    rw [hverdict, Tuning.verdict_ratio, haccepted.hasSize_high.le_iff hratio]
    exact WithTop.coe_le_coe.mpr
      (haccepted.hasSize_high.representable.le_nearest (countShare_nonneg _ _) hp)

/-- A flow of which the given counts are recorded under a policy. -/
def countedFlow (policy : Policy) (acknowledged sent : UInt64) : Flow :=
  ((policy.newFlow "peer").record .incoming acknowledged).record .outgoing sent

/-- Five of a hundred messages are acknowledged, in a second and in six seconds: either way the
peer is overloaded. -/
theorem verdicts_agree_five_of_hundred :
    let tuning : Tuning := ⟨0.9, 0.1, 10⟩
    let policy : Policy := ⟨tuning, .ofMillis 1000, by decide⟩
    let policy' : Policy := ⟨tuning, .ofMillis 6000, by decide⟩
    Tuning.check 0.9 0.1 10 = .ok policy.tuning ∧ policy'.tuning = policy.tuning ∧
      policy.Counts (policy.countedFlow 5 100) 5 100 ∧
      policy'.Counts (policy'.countedFlow 5 100) 5 100 ∧
      (policy.verdict (policy.countedFlow 5 100)).overloaded = true ∧
      Verdict.Agrees tuning (policy.verdict (policy.countedFlow 5 100))
        (policy'.verdict (policy'.countedFlow 5 100)) := by
  intro tuning policy policy'
  have hcheck : Tuning.check 0.9 0.1 10 = .ok policy.tuning := rfl
  have hflow : policy.Counts (policy.countedFlow 5 100) 5 100 := ⟨rfl, rfl⟩
  have hflow' : policy'.Counts (policy'.countedFlow 5 100) 5 100 := ⟨rfl, rfl⟩
  have htuning : policy'.tuning = policy.tuning := rfl
  obtain ⟨p, q, hp, hq, hfollows, -, hagrees, -⟩ := verdicts_agree hcheck htuning hflow hflow'
  have hhigh : unpacked 0.9 = .finite .positive 8106479329266893 (-53) (by decide) := by rfl
  have hlow : unpacked 0.1 = .finite .positive 7205759403792794 (-56) (by decide) := by rfl
  obtain rfl := WithTop.coe_inj.mp (hp.unique (.finite hhigh))
  obtain rfl := WithTop.coe_inj.mp (hq.unique (.finite hlow))
  have hshare : countShare 5 100 = 1 / 20 := by
    rw [countShare_of_ne_zero (by decide), show (5 : UInt64).toNat = 5 from rfl,
      show (100 : UInt64).toNat = 100 from rfl]
    norm_num
  have hclear_high : ClearOf ((8106479329266893 : ℕ) * 2 ^ (-53 : ℤ)) (countShare 5 100) := by
    rw [hshare]
    right
    norm_num
  have hclear_low : ClearOf ((7205759403792794 : ℕ) * 2 ^ (-56 : ℤ)) (countShare 5 100) := by
    rw [hshare]
    right
    norm_num
  refine ⟨hcheck, htuning, hflow, hflow', ?_, hagrees hclear_high hclear_low⟩
  rw [hfollows.overloaded_iff hclear_low, hshare]
  norm_num

/-- The length of the window decides. Three of four messages are exactly the high ratio of the
first tuning, and a peer that acknowledged nine of twelve does not keep up in thirteen seconds.
Of a hundred messages ninety are enough in a second and not in six, and with ten the peer is
overloaded in a second and not in twenty-nine. -/
theorem verdicts_disagree :
    let tuning : Tuning := ⟨0.75, 0.1, 10⟩
    let tuning' : Tuning := ⟨0.9, 0.1, 10⟩
    let policy : Policy := ⟨tuning, .ofMillis 13000, by decide⟩
    let second : Policy := ⟨tuning', .ofMillis 1000, by decide⟩
    let six : Policy := ⟨tuning', .ofMillis 6000, by decide⟩
    let many : Policy := ⟨tuning', .ofMillis 29000, by decide⟩
    Tuning.check 0.75 0.1 10 = .ok tuning ∧ Tuning.check 0.9 0.1 10 = .ok tuning' ∧
      HasSize tuning.highRatio (countShare 9 12) ∧
      ¬ tuning.highRatio ≤ (policy.verdict (policy.countedFlow 9 12)).ratio ∧
      tuning'.highRatio ≤ (second.verdict (second.countedFlow 90 100)).ratio ∧
      ¬ tuning'.highRatio ≤ (six.verdict (six.countedFlow 90 100)).ratio ∧
      (second.verdict (second.countedFlow 10 100)).overloaded = true ∧
      (many.verdict (many.countedFlow 10 100)).overloaded = false := by
  intro tuning tuning' policy second six many
  have hsize : unpacked 0.75 = .finite .positive 6755399441055744 (-53) (by decide) := by rfl
  have hshare : countShare 9 12 = (6755399441055744 : ℕ) * 2 ^ (-53 : ℤ) := by
    rw [countShare_of_ne_zero (by decide), show (9 : UInt64).toNat = 9 from rfl,
      show (12 : UInt64).toNat = 12 from rfl]
    norm_num
  refine ⟨rfl, rfl, hshare ▸ .finite hsize, ?_, ?_, ?_, ?_, ?_⟩ <;> decide +kernel

end Policy

end FlowControl
