import FlowControl.Proofs.Course.Limit

/-!
# The recovery of a limit

A limit that binds grows by its share in every good window, and unless it is zero it grows
strictly. What has to be excluded is a limit so small that its share is lost when the two are
added. It cannot arise: counts are whole numbers and windows have a largest length, so a rate
that is not zero is never as small, nor is a ratio of two rates, nor the product of the two that a
contracted limit is. A limit of zero has no share to grow by, and it stays.
-/

namespace FlowControl

open Binary64

/-- Zero, or no smaller than a power of two. -/
def ZeroOrAtLeast (e : ℤ) (s : WithTop ℚ) : Prop := s = 0 ∨ ((2 ^ e : ℚ) : WithTop ℚ) ≤ s

namespace ZeroOrAtLeast

variable {d e : ℤ} {s t : WithTop ℚ} {p q : ℚ}

/-- What is zero or no smaller than a power of two is so for a smaller power. -/
theorem mono (h : ZeroOrAtLeast e s) (hle : d ≤ e) : ZeroOrAtLeast d s := by
  refine h.imp_right fun hs => le_trans ?_ hs
  exact WithTop.coe_le_coe.mpr (zpow_le_zpow_right₀ one_le_two hle)

/-- What is larger, and zero with it. -/
theorem of_le (h : ZeroOrAtLeast e s) (hle : s ≤ t) (hzero : s = 0 → t = 0) :
    ZeroOrAtLeast e t :=
  h.imp hzero fun hs => hs.trans hle

/-- A rounded product is zero only if one of the factors is. -/
theorem rounded_mul (hp : ZeroOrAtLeast d p) (hq : ZeroOrAtLeast e q)
    (hlow : -1074 ≤ d + e) (hhigh : d + e < 1024) : ZeroOrAtLeast (d + e) (rounded (p * q)) := by
  rcases hp with hp | hp
  · rw [WithTop.coe_eq_zero.mp hp, zero_mul]
    exact Or.inl rounded_zero
  rcases hq with hq | hq
  · rw [WithTop.coe_eq_zero.mp hq, mul_zero]
    exact Or.inl rounded_zero
  right
  have hproduct : (2 : ℚ) ^ (d + e) ≤ p * q := by
    rw [zpow_add₀ two_ne_zero]
    have hp' : (2 : ℚ) ^ d ≤ p := WithTop.coe_le_coe.mp hp
    exact mul_le_mul hp' (WithTop.coe_le_coe.mp hq) (zpow_pos two_pos e).le
      ((zpow_pos two_pos d).le.trans hp')
  have hlt : (2 : ℚ) ^ (d + e) < 2 ^ 1024 := by
    rw [← zpow_natCast]
    exact zpow_lt_zpow_right₀ one_lt_two hhigh
  exact le_rounded (Representable.two_zpow hlow) hlt hproduct

end ZeroOrAtLeast

/-- A rate that is not zero is at least that of one event in the longest window. -/
theorem Meter.zeroOrAtLeast_perSecondSize (window : Span) (count : UInt64) :
    ZeroOrAtLeast (-65) (perSecondSize window count : ℚ) := by
  by_cases hempty : window.nanos = 0
  · left
    rw [perSecondSize, if_pos hempty]
    rfl
  rcases Nat.eq_zero_or_pos count.toNat with hzero | hpos
  · left
    rw [perSecondSize_eq_zero hzero]
    rfl
  · exact Or.inr (WithTop.coe_le_coe.mpr (le_perSecondSize hempty hpos))

namespace Tuning

variable {tuning : Tuning} {current incoming outgoing : Float} {c p q high low factor : ℚ}

/-- A share that is not zero is at least that of the smallest rate in the largest one. -/
theorem zeroOrAtLeast_ratio (hp : ZeroOrAtLeast (-65) p) (hq : q ≤ 2 ^ 94) :
    ZeroOrAtLeast (-159) (if 0 < q then rounded (p / q) else 1) := by
  split_ifs with hpos
  · rw [div_eq_mul_inv]
    refine hp.rounded_mul (e := -94) (Or.inr (WithTop.coe_le_coe.mpr ?_)) (by norm_num)
      (by norm_num)
    rw [zpow_neg]
    exact inv_anti₀ hpos (by exact_mod_cast hq)
  · exact Or.inr (WithTop.coe_le_coe.mpr (zpow_le_one_of_nonpos₀ one_le_two (by norm_num)))

/-- No verdict asks for a limit that is smaller than the product of the smallest rate and the
smallest share, unless it asks for zero. -/
theorem Accepted.zeroOrAtLeast_verdict (h : Accepted tuning high low factor) {s : WithTop ℚ}
    (hs : HasSize current s) (hp : HasSize incoming p) (hq : HasSize outgoing q)
    (hcurrent : ZeroOrAtLeast (-224) s) (hincoming : ZeroOrAtLeast (-65) p) (hq_le : q ≤ 2 ^ 94) :
    ∃ t, HasSize (tuning.verdict current incoming outgoing).rate t ∧ ZeroOrAtLeast (-224) t := by
  by_cases hlt : ratio incoming outgoing < tuning.highRatio
  · have hratio := hasSize_ratio hp hq
    have hshare := zeroOrAtLeast_ratio hincoming hq_le
    rw [verdict_of_not_le ((h.lt_high_iff hp hq).mp hlt)]
    rw [hratio.lt_iff h.hasSize_high] at hlt
    generalize (if 0 < q then rounded (p / q) else 1) = share at hratio hshare hlt
    lift share to ℚ using (hlt.trans (WithTop.coe_lt_top _)).ne
    exact ⟨_, hp.mul hratio, hincoming.rounded_mul hshare (by norm_num) (by norm_num)⟩
  · rcases h.verdict_rate_of_not_lt hs hp hq hlt with
      hsame | ⟨_, hadopted⟩ | ⟨c, rfl, _, t, ht, hle, ht_le⟩
    · rw [hsame]
      exact ⟨s, hs, hcurrent⟩
    · rw [hadopted]
      exact ⟨p, hp, hincoming.mono (by norm_num)⟩
    · refine ⟨t, ht, hcurrent.of_le hle fun hzero => ?_⟩
      rw [WithTop.coe_eq_zero.mp hzero, mul_zero, rounded_zero] at ht_le
      exact le_antisymm ht_le ht.nonneg

/-- Under a limit that binds, a good window asks for the limit and its share. -/
theorem verdict_rate_of_binding (hhigh : tuning.highRatio ≤ ratio incoming outgoing)
    (hfinite : current.isFinite = true) (hbinds : current < outgoing) :
    (tuning.verdict current incoming outgoing).rate = current + current / tuning.factor := by
  rw [verdict_of_le hhigh]
  exact if_pos ⟨hfinite, hbinds⟩

/-- A limit grows strictly by its share, if that is no less than the distance to the next
number. -/
theorem Accepted.lt_grown (h : Accepted tuning high low factor) (hfactor : factor ≤ 2 ^ 52)
    (hc : HasSize current c) (hlow : 2 ^ (-1022 : ℤ) ≤ c) (hhigh : c ≤ 2 ^ 94) :
    current < current + current / tuning.factor := by
  have hfactor_pos : 0 < factor := zero_lt_one.trans_le h.one_le_factor
  obtain ⟨step, hstep_pos, hstep_le, hstep, hnext⟩ := hc.representable.exists_step hlow
  obtain ⟨share, hshare, hrounded, hshare_le⟩ := h.exists_hasSize_share hc
  have hstep_le_c : step ≤ c :=
    hstep_le.trans (div_le_self hc.representable.nonneg (by norm_num))
  have hbound {y : ℚ} (hy : y ≤ 2 * c) : y < 2 ^ 1024 :=
    calc y ≤ 2 ^ 95 := by linarith
      _ < 2 ^ 1024 := pow_lt_pow_right₀ one_lt_two (by norm_num)
  have hstep_le_share : step ≤ share := by
    rw [← WithTop.coe_le_coe, ← hrounded]
    refine le_rounded hstep (hbound (by linarith)) (hstep_le.trans ?_)
    exact div_le_div_of_nonneg_left hc.representable.nonneg hfactor_pos hfactor
  rw [hc.lt_iff (hc.add hshare)]
  calc (c : WithTop ℚ) < (c + step : ℚ) := WithTop.coe_lt_coe.mpr (lt_add_of_pos_right c hstep_pos)
    _ ≤ rounded (c + share) := le_rounded hnext (hbound (by linarith)) (by linarith)

end Tuning

namespace Course

variable {policy : Policy} {course : Course} {high low factor : ℚ}

/-- The limit is zero, or it is far from the numbers whose last places are cut off. -/
def Recoverable (course : Course) : Prop :=
  ∃ s, HasSize course.flow.rate s ∧ ZeroOrAtLeast (-224) s

/-- Every step keeps the limit zero or large enough. -/
theorem Recoverable.step (haccepted : policy.tuning.Accepted high low factor)
    (h : course.Recoverable) (step : Step) : (course.step policy step).Recoverable := by
  obtain ⟨s, hs, hlarge⟩ := h
  obtain ⟨rfl, hcloses⟩ | hopen := closes_or_not policy course step
  · obtain ⟨t, ht, hlarge'⟩ : ∃ t, HasSize (policy.verdict course.flow).rate t ∧
        ZeroOrAtLeast (-224) t :=
      haccepted.zeroOrAtLeast_verdict hs (Meter.hasSize_rate _) (Meter.hasSize_rate _) hlarge
        (Meter.zeroOrAtLeast_perSecondSize _ _) (Meter.perSecondSize_le _ _)
    refine ⟨t, ?_, hlarge'⟩
    rw [hcloses.flow_step, Flow.rate_close_eq hs ht]
    exact ht
  · rw [Recoverable, rate_step_of_not_closes hopen]
    exact ⟨s, hs, hlarge⟩

/-- After every run of a new flow the limit is zero or large enough. -/
theorem recoverable_run (haccepted : policy.tuning.Accepted high low factor) (peer : Peer)
    (millis : UInt64) (steps : List Step) :
    ((start policy peer millis).run policy steps).Recoverable :=
  run_preserves (fun _ step h => h.step haccepted step)
    ⟨⊤, hasSize_unbounded, Or.inr le_top⟩ steps

/-- **A limit that binds recovers, unless it is zero.** Under a tuning that passed its check and
whose factor is at most `2 ^ 52`, at every point of every run of a new flow: a window that closes
with more sent than is permitted and with a ratio from the high one on raises a limit above zero
strictly, and it leaves a limit of zero at zero. -/
theorem limit_recovers (policy : Policy) (peer : Peer) (millis : UInt64) {high low factor : Float}
    (hcheck : Tuning.check high low factor = .ok policy.tuning)
    (hfactor : policy.tuning.factor ≤ 4503599627370496) (steps : List Step) :
    let course := (start policy peer millis).run policy steps
    let verdict := policy.verdict course.flow
    let after := (course.step policy .judge).flow
    course.Closes policy → course.flow.rate.isFinite = true →
    course.flow.rate < verdict.outgoing → policy.tuning.highRatio ≤ verdict.ratio →
      (0 < course.flow.rate → course.flow.rate < after.rate) ∧
      (course.flow.rate = 0 → after.rate = 0) := by
  intro course verdict after hcloses hfinite hbinds hhigh
  obtain ⟨p, q, r, haccepted⟩ := Tuning.exists_accepted hcheck
  obtain ⟨s, hs, hlarge⟩ : course.Recoverable := recoverable_run haccepted peer millis steps
  lift s to ℚ using hs.isFinite_iff.mp hfinite
  have hsent : course.flow.rate < course.flow.outgoing.rate := by
    simpa only [verdict, Policy.verdict, Tuning.verdict_outgoing] using hbinds
  have hkeeps : policy.tuning.highRatio ≤
      Tuning.ratio course.flow.incoming.rate course.flow.outgoing.rate := by
    simpa only [verdict, Policy.verdict, Tuning.verdict_ratio] using hhigh
  have hrate : verdict.rate = course.flow.rate + course.flow.rate / policy.tuning.factor :=
    Tuning.verdict_rate_of_binding hkeeps hfinite hsent
  obtain ⟨t, ht, -, ht_le⟩ := haccepted.exists_hasSize_grown hs
  have hafter : after.rate = course.flow.rate + course.flow.rate / policy.tuning.factor := by
    rw [← hrate] at ht ⊢
    exact (congrArg Flow.rate hcloses.flow_step).trans (Flow.rate_close_eq hs ht)
  rw [hafter]
  constructor
  · intro hpos
    rw [hasSize_zero.lt_iff hs] at hpos
    rw [hs.lt_iff (Meter.hasSize_rate _)] at hsent
    rw [haccepted.hasSize_factor.le_iff hasSize_two_pow_fifty_two] at hfactor
    have hlow : (2 : ℚ) ^ (-224 : ℤ) ≤ s :=
      WithTop.coe_le_coe.mp (hlarge.resolve_left hpos.ne')
    -- what was sent bounds a limit that binds, so its growth is far from overflowing
    have hhigh : s ≤ 2 ^ 94 :=
      (WithTop.coe_lt_coe.mp hsent).le.trans (Meter.perSecondSize_le _ _)
    refine haccepted.lt_grown (WithTop.coe_le_coe.mp hfactor) hs (le_trans ?_ hlow) hhigh
    exact zpow_le_zpow_right₀ one_le_two (by norm_num)
  · intro hzero
    have hsize : s = 0 := WithTop.coe_eq_zero.mp (hs.unique (hzero ▸ hasSize_zero))
    rw [hsize, mul_zero, rounded_zero] at ht_le
    exact ht.eq_of_eq hasSize_zero (le_antisymm ht_le ht.nonneg)

/-- A peer that acknowledged half of the messages of a second and everything in the next one is
permitted a tenth more. -/
theorem limit_recovers_tenth :
    let policy : Policy := ⟨⟨0.9, 0.1, 10⟩, .ofMillis 1000, by decide⟩
    let second : Step := .move (.advance (.ofMillis 1000))
    let steps : List Step :=
      [.record .outgoing 10, .record .incoming 5, second, .judge,
        .record .outgoing 100, .record .incoming 100, second]
    let course := (start policy "peer" 0).run policy steps
    Tuning.check 0.9 0.1 10 = .ok policy.tuning ∧
      policy.tuning.factor ≤ 4503599627370496 ∧ course.Closes policy ∧
      course.flow.rate = 2.5 ∧ course.flow.rate < (course.step policy .judge).flow.rate := by
  intro policy second steps course
  have hcheck : Tuning.check 0.9 0.1 10 = .ok policy.tuning := rfl
  have hfactor : policy.tuning.factor ≤ 4503599627370496 := by decide +kernel
  have hcloses : course.Closes policy := by decide +kernel
  have hgrows := limit_recovers policy "peer" 0 hcheck hfactor steps hcloses (by decide +kernel)
    (by decide +kernel) (by decide +kernel)
  exact ⟨hcheck, hfactor, hcloses, by decide +kernel, hgrows.1 (by decide +kernel)⟩

/-- A peer that acknowledged nothing for a second is permitted nothing, also after a second in
which everything was acknowledged. -/
theorem limit_recovers_not_from_zero :
    let policy : Policy := ⟨⟨0.9, 0.1, 10⟩, .ofMillis 1000, by decide⟩
    let second : Step := .move (.advance (.ofMillis 1000))
    let steps : List Step :=
      [.record .outgoing 100, second, .judge,
        .record .outgoing 100, .record .incoming 100, second]
    let course := (start policy "peer" 0).run policy steps
    let verdict := policy.verdict course.flow
    Tuning.check 0.9 0.1 10 = .ok policy.tuning ∧
      policy.tuning.factor ≤ 4503599627370496 ∧ course.Closes policy ∧
      course.flow.rate.isFinite = true ∧ course.flow.rate < verdict.outgoing ∧
      policy.tuning.highRatio ≤ verdict.ratio ∧
      ¬ course.flow.rate < (course.step policy .judge).flow.rate ∧
      (course.step policy .judge).flow.rate = 0 := by
  intro policy second steps course verdict
  refine ⟨rfl, ?_, ?_, ?_, ?_, ?_, ?_, ?_⟩ <;> decide +kernel

end Course

end FlowControl
