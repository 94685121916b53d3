import FlowControl.Proofs.Pacing.Period

/-!
# Higher rates, shorter intervals

An interval is a quotient that is rounded, cut off at the longest interval, and rounded once more to
whole nanoseconds. Each of these keeps the order, so more seconds are never turned into a shorter
span, and the order of the rates is turned around by the division alone. A rate that permits nothing
has the longest interval, and under an infinite one no time is occupied.
-/

namespace FlowControl

open Binary64

/-- **More seconds are no shorter span.** -/
theorem Span.ofSeconds?_mono {x y : Float} {span longer : Span} (h : x ≤ y)
    (hspan : ofSeconds? x = some span) (hlonger : ofSeconds? y = some longer) :
    span.nanos ≤ longer.nanos := by
  obtain ⟨p, hp⟩ := exists_hasValue_of_ofSeconds? hspan
  obtain ⟨q, hq⟩ := exists_hasValue_of_ofSeconds? hlonger
  have hpq : p ≤ q := WithTop.coe_le_coe.mp ((hp.le_iff hq).mp h)
  have hnanos : (span.nanos : ℤ) ≤ longer.nanos := by
    rw [nanos_of_ofSeconds? hp hspan, nanos_of_ofSeconds? hq hlonger]
    exact nearestInt_mono (mul_le_mul_of_nonneg_right hpq (Nat.cast_nonneg _))
  exact_mod_cast hnanos

namespace Pacing

variable {rate rate' x y : Float} {permits permits' : UInt32} {p q : ℚ}

/-- What is no lower than a positive rate is positive. -/
theorem pos_of_le (hrate : 0 < rate) (h : rate ≤ rate') : 0 < rate' := by
  obtain ⟨t, ht, hpos⟩ := exists_hasSize_of_pos hrate
  obtain ⟨t', ht'⟩ := exists_hasSize_of_le ht hpos.ne' h
  rw [hasSize_zero.lt_iff ht']
  exact hpos.trans_le ((ht.le_iff ht').mp h)

/-- A smaller number divided by a higher rate is no larger. -/
theorem div_le_div (hx : HasSize x p) (hy : HasSize y q) (hpq : p ≤ q) (hrate : 0 < rate)
    (h : rate ≤ rate') : x / rate' ≤ y / rate := by
  obtain ⟨t, ht, hpos⟩ := exists_hasSize_of_pos hrate
  obtain ⟨t', ht', -⟩ := exists_hasSize_of_pos (pos_of_le hrate h)
  have hle : t ≤ t' := (ht.le_iff ht').mp h
  by_cases htop : t' = ⊤
  · obtain rfl := ht'.eq_of_eq hasSize_unbounded htop
    obtain ⟨s, hs⟩ := exists_hasSize_div hy hrate
    rw [(hasSize_div_unbounded hx).le_iff hs]
    exact hs.nonneg
  · lift t' to ℚ using htop
    lift t to ℚ using (hle.trans_lt (WithTop.coe_lt_top t')).ne
    rw [WithTop.coe_le_coe] at hle
    have hpos : 0 < t := WithTop.coe_lt_coe.mp hpos
    rw [(hx.div ht' (hpos.trans_le hle)).le_iff (hy.div ht hpos)]
    apply rounded_mono (div_nonneg hx.representable.nonneg (hpos.le.trans hle))
    exact div_le_div₀ hy.representable.nonneg hpq hpos hle

/-- **A reservation that takes no more seconds occupies no longer interval.** -/
theorem interval_le_of_seconds_le (hrate : 0 < rate) (hrate' : 0 < rate')
    (h : permits.toFloat / rate ≤ permits'.toFloat / rate') :
    (interval rate permits).nanos ≤ (interval rate' permits').nanos := by
  by_cases hlong' : longest.seconds ≤ permits'.toFloat / rate'
  · rw [interval_of_longest_le hrate' hlong']
    exact interval_le_longest rate permits
  · -- the other one takes no more seconds, so it is not cut off either
    have hlong : ¬ longest.seconds ≤ permits.toFloat / rate := by
      obtain ⟨s, hs⟩ := exists_hasSize_div (hasSize_toFloat_permits permits) hrate
      obtain ⟨s', hs'⟩ := exists_hasSize_div (hasSize_toFloat_permits permits') hrate'
      rw [hs.le_iff hs'] at h
      rw [hasSize_longest.le_iff hs'] at hlong'
      rw [hasSize_longest.le_iff hs]
      exact fun hle => hlong' (hle.trans h)
    exact Span.ofSeconds?_mono h (ofSeconds?_eq_some_interval hrate hlong)
      (ofSeconds?_eq_some_interval hrate' hlong')

/-- A higher rate has no longer interval. -/
theorem interval_anti (h : rate ≤ rate') (permits : UInt32) :
    (interval rate' permits).nanos ≤ (interval rate permits).nanos := by
  by_cases hrate : 0 < rate
  · have hpermits := hasSize_toFloat_permits permits
    exact interval_le_of_seconds_le (pos_of_le hrate h) hrate
      (div_le_div hpermits hpermits le_rfl hrate h)
  · rw [interval_of_not_pos hrate]
    exact interval_le_longest rate' permits

/-- More sends have no shorter interval. -/
theorem interval_mono (rate : Float) (h : permits ≤ permits') :
    (interval rate permits).nanos ≤ (interval rate permits').nanos := by
  by_cases hrate : 0 < rate
  · have hnearest : nearest permits.toNat ≤ nearest permits'.toNat :=
      nearest_mono (Nat.cast_nonneg _) (by exact_mod_cast UInt32.le_iff_toNat_le.mp h)
    have hle : rate ≤ rate := by
      obtain ⟨t, ht, -⟩ := exists_hasSize_of_pos hrate
      exact (ht.le_iff ht).mpr le_rfl
    exact interval_le_of_seconds_le hrate hrate (div_le_div (hasSize_toFloat_permits permits)
      (hasSize_toFloat_permits permits') hnearest hrate hle)
  · rw [interval_of_not_pos hrate, interval_of_not_pos hrate]

/-- A higher rate has no longer period. -/
theorem period_anti (h : rate ≤ rate') : (period rate').nanos ≤ (period rate).nanos := by
  by_cases hrate : 0 < rate
  · have hrate' := pos_of_le hrate h
    obtain ⟨span, hspan, -, hperiod⟩ := exists_ofSeconds?_period hrate
    obtain ⟨span', hspan', -, hperiod'⟩ := exists_ofSeconds?_period hrate'
    have hseconds : periodSeconds rate' ≤ periodSeconds rate := by
      obtain ⟨s, hs⟩ := exists_hasSize_div hasSize_one hrate
      obtain ⟨s', hs'⟩ := exists_hasSize_div hasSize_one hrate'
      have hle := div_le_div hasSize_one hasSize_one le_rfl hrate h
      rw [hs'.le_iff hs] at hle
      rw [(hasSize_periodSeconds hs').le_iff (hasSize_periodSeconds hs)]
      exact min_le_min_right _ hle
    rw [hperiod, hperiod']
    exact max_le_max_right _ (Span.ofSeconds?_mono hseconds hspan' hspan)
  · rw [period_of_not_pos hrate]
    exact period_le rate'

/-- **Intervals and periods are total, bounded, and turn the order of the rates around.** Whatever
the rate is, a number or not, no conversion of seconds to a span fails: every reservation has an
interval of at most a minute, and every load has a period from a microsecond to an hour. Of two
rates that compare the higher one has no longer interval and no longer period, and under one rate
more sends have no shorter interval. -/
theorem intervals_antitone :
    (∀ (rate : Float) (permits : UInt32),
      interval? rate permits = some (interval rate permits) ∧
      (interval rate permits).nanos ≤ 60 * nanosPerSecond) ∧
    (∀ rate : Float, period? rate = some (period rate) ∧
      1000 ≤ (period rate).nanos ∧ (period rate).nanos ≤ 3600 * nanosPerSecond) ∧
    (∀ (rate rate' : Float) (permits : UInt32), rate ≤ rate' →
      (interval rate' permits).nanos ≤ (interval rate permits).nanos ∧
      (period rate').nanos ≤ (period rate).nanos) ∧
    ∀ (rate : Float) (permits permits' : UInt32), permits ≤ permits' →
      (interval rate permits).nanos ≤ (interval rate permits').nanos := by
  refine ⟨?_, ?_, ?_, ?_⟩
  · intro rate permits
    exact ⟨interval?_eq_some rate permits, interval_le_longest rate permits⟩
  · intro rate
    exact ⟨period?_eq_some rate, le_period rate, period_le rate⟩
  · intro rate rate' permits h
    exact ⟨interval_anti h permits, period_anti h⟩
  · intro rate permits permits' h
    exact interval_mono rate h

/-- The least positive rate and no limit at all, what is no rate, and one send and three at four per
second. -/
theorem intervals_antitone_extremes :
    let least : Float := .ofBits 1
    let noRate : Float := 0 / 0
    least ≤ unbounded ∧ (interval unbounded 1).nanos ≤ (interval least 1).nanos ∧
      (period unbounded).nanos ≤ (period least).nanos ∧ (period unbounded).nanos = 1000 ∧
      interval? noRate 1 = some longest ∧ period? noRate = some (.ofSecs 3600) ∧
      (1 : UInt32) ≤ 3 ∧ (interval 4 1).nanos = 250000000 ∧
      250000000 ≤ (interval 4 3).nanos := by
  intro least noRate
  have hrates : least ≤ unbounded := by decide +kernel
  have hfour : (interval 4 1).nanos = 250000000 := by decide +kernel
  obtain ⟨hinterval, hperiod, hanti, hmono⟩ := intervals_antitone
  have hlower := hanti least unbounded 1 hrates
  refine ⟨hrates, hlower.1, hlower.2, by decide +kernel, ?_, ?_, by decide, hfour, ?_⟩
  · rw [(hinterval noRate 1).1]
    decide +kernel
  · rw [(hperiod noRate).1]
    decide +kernel
  · rw [← hfour]
    exact hmono 4 1 3 (by decide)

end Pacing

end FlowControl
