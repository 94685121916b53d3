import FlowControl.Flow.Verdict
import FlowControl.Proofs.Binary64.Arithmetic

/-!
# The control law in sizes

What the law computes of two rates and a limit, as rationals that are rounded once in each
operation. The numbers of a tuning that passed its check are ratios in their order, and a factor
of at least one.
-/

namespace FlowControl

open Binary64

namespace Allowance

variable {x : Float} {s : WithTop ℚ}

/-- A rate made fit to be a limit has a clear sign bit. -/
theorem exists_hasSize_clamp (x : Float) : ∃ s, HasSize (clamp x) s := by
  unfold clamp
  split_ifs with hpos
  · exact exists_hasSize_of_lt hasSize_zero hpos
  · exact ⟨0, hasSize_zero⟩

/-- A rate with a clear sign bit is fit to be a limit as it is. -/
theorem clamp_eq (h : HasSize x s) : clamp x = x := by
  unfold clamp
  split_ifs with hpos
  · rfl
  · rw [hasSize_zero.lt_iff h, not_lt] at hpos
    exact hasSize_zero.eq_of_eq h (le_antisymm h.nonneg hpos)

end Allowance

namespace Tuning

/-- The sizes of the numbers of a tuning that passed its check. -/
structure Accepted (tuning : Tuning) (high low factor : ℚ) : Prop where
  hasSize_high : HasSize tuning.highRatio high
  hasSize_low : HasSize tuning.lowRatio low
  hasSize_factor : HasSize tuning.factor factor
  low_pos : 0 < low
  low_lt_high : low < high
  high_le_one : high ≤ 1
  one_le_factor : 1 ≤ factor

/-- A ratio is a size of at most one. -/
theorem IsRatio.exists_hasSize {x : Float} (h : IsRatio x) :
    ∃ p : ℚ, HasSize x p ∧ 0 < p ∧ p ≤ 1 := by
  obtain ⟨hpos, hle⟩ := h
  obtain ⟨s, hs⟩ := exists_hasSize_of_lt hasSize_zero hpos
  rw [hasSize_zero.lt_iff hs] at hpos
  rw [hs.le_iff hasSize_one] at hle
  lift s to ℚ using ne_top_of_le_ne_top WithTop.one_ne_top hle
  exact ⟨s, hs, WithTop.coe_lt_coe.mp hpos, WithTop.coe_le_coe.mp hle⟩

/-- A factor that is at least one and not infinite is a size. -/
theorem exists_hasSize_of_one_le {x : Float} (h : 1 ≤ x) (hinf : ¬ x.isInf = true) :
    ∃ p : ℚ, HasSize x p ∧ 1 ≤ p := by
  obtain ⟨s, hs⟩ := exists_hasSize_of_le hasSize_one one_ne_zero h
  rw [hasSize_one.le_iff hs] at h
  lift s to ℚ using mt hs.isInf_iff.mpr hinf
  exact ⟨s, hs, WithTop.coe_le_coe.mp h⟩

/-- What the check accepts has these sizes. -/
theorem exists_accepted {high low factor : Float} {tuning : Tuning}
    (h : check high low factor = .ok tuning) : ∃ p q r, Accepted tuning p q r := by
  unfold check at h
  split_ifs at h with hhigh hlow horder hfactor
  obtain rfl := Except.ok.inj h
  rw [not_or, not_not] at hfactor
  obtain ⟨p, hp, _, hp_le⟩ := hhigh.exists_hasSize
  obtain ⟨q, hq, hq_pos, _⟩ := hlow.exists_hasSize
  obtain ⟨r, hr, hr_le⟩ := exists_hasSize_of_one_le hfactor.1 hfactor.2
  have hlt : q < p := by
    rw [hp.le_iff hq, not_le] at horder
    exact WithTop.coe_lt_coe.mp horder
  exact ⟨p, q, r, hp, hq, hr, hq_pos, hlt, hp_le, hr_le⟩

variable {tuning : Tuning} {current incoming outgoing : Float} {c p q : ℚ}

/-- The share of the traffic that was acknowledged is a size, the rounded quotient of the rates
unless nothing was sent. -/
theorem hasSize_ratio (hp : HasSize incoming p) (hq : HasSize outgoing q) :
    HasSize (ratio incoming outgoing) (if 0 < q then rounded (p / q) else 1) := by
  have hpos : 0 < outgoing ↔ 0 < q := by
    rw [hasSize_zero.lt_iff hq]
    exact WithTop.coe_lt_coe
  unfold ratio
  by_cases h : 0 < q
  · rw [if_pos (hpos.mpr h), if_pos h]
    exact hp.div hq h
  · rw [if_neg (mt hpos.mp h), if_neg h]
    exact hasSize_one

/-- A rate times a share below one is no more than the rate. -/
theorem exists_hasSize_mul_le {share : Float} {s : WithTop ℚ} (hp : HasSize incoming p)
    (hs : HasSize share s) (hle : s ≤ 1) :
    ∃ r : ℚ, HasSize (incoming * share) r ∧ 0 ≤ r ∧ r ≤ p := by
  lift s to ℚ using ne_top_of_le_ne_top WithTop.one_ne_top hle
  have hs_le : s ≤ 1 := WithTop.coe_le_coe.mp hle
  have hproduct : p * s ≤ p := mul_le_of_le_one_right hp.representable.nonneg hs_le
  have hnonneg : 0 ≤ p * s := mul_nonneg hp.representable.nonneg hs.representable.nonneg
  have hmul := hp.mul hs
  have hrounded := rounded_le hp.representable hp.lt_two_pow hnonneg hproduct
  generalize rounded (p * s) = t at hmul hrounded
  lift t to ℚ using ne_top_of_le_ne_top WithTop.coe_ne_top hrounded
  exact ⟨t, hmul, hmul.representable.nonneg, WithTop.coe_le_coe.mp hrounded⟩

/-- The share that a limit grows by is no more than the limit. -/
theorem Accepted.exists_hasSize_share {high low factor : ℚ}
    (h : Accepted tuning high low factor) (hc : HasSize current c) :
    ∃ s : ℚ, HasSize (current / tuning.factor) s ∧ rounded (c / factor) = s ∧ s ≤ c := by
  have hfactor_pos : 0 < factor := zero_lt_one.trans_le h.one_le_factor
  have hshare := hc.div h.hasSize_factor hfactor_pos
  have hle : rounded (c / factor) ≤ c :=
    rounded_le hc.representable hc.lt_two_pow (div_nonneg hc.representable.nonneg hfactor_pos.le)
      (div_le_self hc.representable.nonneg h.one_le_factor)
  generalize rounded (c / factor) = s at hshare hle
  lift s to ℚ using ne_top_of_le_ne_top WithTop.coe_ne_top hle
  exact ⟨s, hshare, rfl, WithTop.coe_le_coe.mp hle⟩

/-- A limit that grows by its share grows to no more than twice its size. -/
theorem Accepted.exists_hasSize_grown {high low factor : ℚ}
    (h : Accepted tuning high low factor) (hc : HasSize current c) :
    ∃ s, HasSize (current + current / tuning.factor) s ∧ (c : WithTop ℚ) ≤ s ∧
      s ≤ rounded (2 * c) := by
  obtain ⟨share, hshare, -, hle⟩ := h.exists_hasSize_share hc
  have hc_nonneg := hc.representable.nonneg
  have hshare_nonneg := hshare.representable.nonneg
  refine ⟨_, hc.add hshare, ?_, ?_⟩
  · exact le_rounded hc.representable hc.lt_two_pow (by linarith)
  · exact rounded_mono (by linarith) (by linarith)

/-- The verdict on a peer that keeps up. -/
theorem verdict_of_le (h : tuning.highRatio ≤ ratio incoming outgoing) :
    tuning.verdict current incoming outgoing =
      ⟨incoming, outgoing, ratio incoming outgoing, tuning.relax current incoming outgoing,
        false⟩ :=
  if_pos h

/-- The verdict on a peer that does not keep up. -/
theorem verdict_of_not_le (h : ¬ tuning.highRatio ≤ ratio incoming outgoing) :
    tuning.verdict current incoming outgoing =
      ⟨incoming, outgoing, ratio incoming outgoing, incoming * ratio incoming outgoing,
        decide (ratio incoming outgoing ≤ tuning.lowRatio)⟩ :=
  if_neg h

/-- A verdict shows the incoming rate that it was made of. -/
@[simp] theorem verdict_incoming :
    (tuning.verdict current incoming outgoing).incoming = incoming := by
  by_cases h : tuning.highRatio ≤ ratio incoming outgoing
  · rw [verdict_of_le h]
  · rw [verdict_of_not_le h]

/-- A verdict shows the outgoing rate that it was made of. -/
@[simp] theorem verdict_outgoing :
    (tuning.verdict current incoming outgoing).outgoing = outgoing := by
  by_cases h : tuning.highRatio ≤ ratio incoming outgoing
  · rw [verdict_of_le h]
  · rw [verdict_of_not_le h]

/-- A verdict shows the ratio of the two rates that it was made of. -/
@[simp] theorem verdict_ratio :
    (tuning.verdict current incoming outgoing).ratio = ratio incoming outgoing := by
  by_cases h : tuning.highRatio ≤ ratio incoming outgoing
  · rw [verdict_of_le h]
  · rw [verdict_of_not_le h]

/-- Whatever the tuning is, the rate of a verdict is not a zero whose sign bit is set. -/
theorem verdict_rate_ne_neg_zero {s : WithTop ℚ} (hs : HasSize current s)
    (hp : HasSize incoming p) (hq : HasSize outgoing q) :
    unpacked (tuning.verdict current incoming outgoing).rate ≠ .zero .negative := by
  by_cases h : tuning.highRatio ≤ ratio incoming outgoing
  · rw [verdict_of_le h]
    unfold relax
    split_ifs
    · exact hs.add_ne_neg_zero _
    · exact hp.ne_neg_zero
    · exact hs.ne_neg_zero
  · rw [verdict_of_not_le h]
    exact hp.mul_ne_neg_zero (hasSize_ratio hp hq)

/-- A peer keeps up or stays below the high ratio, for both are sizes. -/
theorem Accepted.lt_high_iff {high low factor : ℚ} (h : Accepted tuning high low factor)
    (hp : HasSize incoming p) (hq : HasSize outgoing q) :
    ratio incoming outgoing < tuning.highRatio ↔
      ¬ tuning.highRatio ≤ ratio incoming outgoing := by
  have hratio := hasSize_ratio hp hq
  rw [hratio.lt_iff h.hasSize_high, h.hasSize_high.le_iff hratio, not_le]

/-- Below the high ratio the limit becomes no more than what the peer acknowledges. -/
theorem Accepted.verdict_rate_of_lt {high low factor : ℚ} (h : Accepted tuning high low factor)
    (hp : HasSize incoming p) (hq : HasSize outgoing q)
    (hlt : ratio incoming outgoing < tuning.highRatio) :
    ∃ r : ℚ, HasSize (tuning.verdict current incoming outgoing).rate r ∧ 0 ≤ r ∧ r ≤ p := by
  have hratio := hasSize_ratio hp hq
  rw [verdict_of_not_le ((h.lt_high_iff hp hq).mp hlt)]
  rw [hratio.lt_iff h.hasSize_high] at hlt
  exact exists_hasSize_mul_le hp hratio
    (hlt.le.trans (WithTop.coe_le_coe.mpr h.high_le_one))

/-- From the high ratio on the limit stays, or it becomes what the peer acknowledges and that is
more, or it was below what was sent and grows to no more than twice its size. -/
theorem Accepted.verdict_rate_of_not_lt {high low factor : ℚ}
    (h : Accepted tuning high low factor) {s : WithTop ℚ} (hs : HasSize current s)
    (hp : HasSize incoming p) (hq : HasSize outgoing q)
    (hlt : ¬ ratio incoming outgoing < tuning.highRatio) :
    (tuning.verdict current incoming outgoing).rate = current ∨
      s < p ∧ (tuning.verdict current incoming outgoing).rate = incoming ∨
      ∃ c : ℚ, s = c ∧ c < q ∧ ∃ t,
        HasSize (tuning.verdict current incoming outgoing).rate t ∧ s ≤ t ∧
          t ≤ rounded (2 * c) := by
  rw [h.lt_high_iff hp hq, not_not] at hlt
  rw [verdict_of_le hlt]
  unfold relax
  split_ifs with hgrow hadopt
  · obtain ⟨hfinite, hbinds⟩ := hgrow
    lift s to ℚ using hs.isFinite_iff.mp hfinite
    rw [hs.lt_iff hq] at hbinds
    exact Or.inr (Or.inr ⟨s, rfl, WithTop.coe_lt_coe.mp hbinds, h.exists_hasSize_grown hs⟩)
  · rw [hs.lt_iff hp] at hadopt
    exact Or.inr (Or.inl ⟨hadopt.2, rfl⟩)
  · exact Or.inl rfl

end Tuning

end FlowControl
