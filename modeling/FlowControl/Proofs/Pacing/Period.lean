import FlowControl.Proofs.Binary64.Order
import FlowControl.Proofs.Pacing.Interval

/-!
# Seconds that are turned into spans

Pacing divides by rates, and a rate may be so small that the quotient is infinite. What is turned
into a span has been bounded before, so it always is one: the period of a load is at most an hour,
and the interval of a reservation that is not the longest one is shorter than that. So the spans
that stand in for a failed conversion are never used.
-/

namespace FlowControl

open Binary64

namespace Pacing

variable {rate seconds x : Float} {span : Span} {s : WithTop ℚ} {p : ℚ}

/-- The seconds of an hour. -/
theorem hasSize_hour : HasSize 3600 (3600 : ℚ) :=
  hasSize_of_eq_word 3600 (by decide +kernel) (by decide) Nat.cast_ofNat

/-- A finite number divided by infinity is zero. -/
theorem hasSize_div_unbounded (hx : HasSize x p) : HasSize (x / unbounded) 0 := by
  have hquotient : x / unbounded = .ofModel (.pack (Float.Model.UnpackedFloat.div
      Float.Model.Format.binary64 (unpacked x) (.infinity .positive))) := rfl
  rw [hquotient]
  rcases hx.zero_or_finite with ⟨hx', -⟩ | ⟨_, _, _, hx', -, -⟩
  · rw [hx']
    exact hasSize_zero
  · rw [hx']
    exact hasSize_zero

/-- A positive rate has a positive size. -/
theorem exists_hasSize_of_pos (hrate : 0 < rate) : ∃ t, HasSize rate t ∧ 0 < t := by
  obtain ⟨t, ht⟩ := exists_hasSize_of_lt hasSize_zero hrate
  exact ⟨t, ht, (hasSize_zero.lt_iff ht).mp hrate⟩

/-- A finite number divided by a positive rate has a size. -/
theorem exists_hasSize_div (hx : HasSize x p) (hrate : 0 < rate) :
    ∃ s, HasSize (x / rate) s := by
  obtain ⟨t, ht, hpos⟩ := exists_hasSize_of_pos hrate
  by_cases htop : t = ⊤
  · obtain rfl := ht.eq_of_eq hasSize_unbounded htop
    exact ⟨0, hasSize_div_unbounded hx⟩
  · lift t to ℚ using htop
    exact ⟨_, hx.div ht (WithTop.coe_lt_coe.mp hpos)⟩

/-- What is below a finite size is finite. -/
theorem exists_hasSize_of_lt_bound {bound : Float} (hseconds : HasSize seconds s)
    (hbound : HasSize bound p) (hlt : seconds < bound) : ∃ q : ℚ, HasSize seconds q ∧ q < p := by
  have hs : s < p := (hseconds.lt_iff hbound).mp hlt
  lift s to ℚ using (hs.trans (WithTop.coe_lt_top p)).ne
  exact ⟨s, hseconds, WithTop.coe_lt_coe.mp hs⟩

/-- The positive rates are those that permit something. -/
theorem not_or_iff_pos : ¬ (rate.isNaN = true ∨ rate ≤ 0) ↔ 0 < rate := by
  constructor
  · intro hno
    obtain ⟨hnan, hle⟩ := not_or.mp hno
    exact (not_le_iff (Bool.eq_false_of_not_eq_true hnan) hasSize_zero.isNaN_eq).mp hle
  · intro hrate
    obtain ⟨t, ht, hpos⟩ := exists_hasSize_of_pos hrate
    rintro (hnan | hle)
    · exact Bool.false_ne_true (ht.isNaN_eq.symm.trans hnan)
    · exact not_le.mpr hpos ((ht.le_iff hasSize_zero).mp hle)

/-- A rate that is not positive, or is no number, permits nothing. -/
theorem nothing_of_not_pos (hrate : ¬ 0 < rate) : rate.isNaN = true ∨ rate ≤ 0 :=
  not_not.mp (mt not_or_iff_pos.mp hrate)

/-- The interval of a positive rate is the longest one or made of the seconds it takes. -/
theorem interval?_of_pos (hrate : 0 < rate) (permits : UInt32) :
    interval? rate permits = if longest.seconds ≤ permits.toFloat / rate then some longest
      else Span.ofSeconds? (permits.toFloat / rate) :=
  if_neg (not_or_iff_pos.mpr hrate)

/-- A rate that is not positive, or is no number, has the longest period. -/
theorem period?_of_not_pos (hrate : ¬ 0 < rate) : period? rate = some hour :=
  if_pos (nothing_of_not_pos hrate)

/-- The period of a positive rate is made of its seconds, unless they are too few. -/
theorem period?_of_pos (hrate : 0 < rate) :
    period? rate =
      (Span.ofSeconds? (periodSeconds rate)).map fun span => span.max ⟨shortest, by decide⟩ :=
  if_neg (not_or_iff_pos.mpr hrate)

/-- The seconds of a period are those of the quotient, of an hour at most. -/
theorem hasSize_periodSeconds (h : HasSize (1 / rate) s) :
    HasSize (periodSeconds rate) (min s (3600 : ℚ)) := by
  unfold periodSeconds
  split_ifs with hlt
  · rw [h.lt_iff hasSize_hour] at hlt
    rwa [min_eq_left hlt.le]
  · rw [h.lt_iff hasSize_hour, not_lt] at hlt
    rw [min_eq_right hlt]
    exact hasSize_hour

/-- **A positive rate gives the seconds of a span**, of an hour at most. -/
theorem exists_ofSeconds?_periodSeconds (hrate : 0 < rate) :
    ∃ span, Span.ofSeconds? (periodSeconds rate) = some span ∧
      span.nanos ≤ 3600 * nanosPerSecond := by
  obtain ⟨s, hs⟩ := exists_hasSize_div hasSize_one hrate
  have hseconds := hasSize_periodSeconds hs
  have hle : min s (3600 : ℚ) ≤ (3600 : ℚ) := min_le_right _ _
  generalize min s (3600 : ℚ) = t at hseconds hle
  lift t to ℚ using (hle.trans_lt (WithTop.coe_lt_top _)).ne
  exact Span.exists_ofSeconds? (k := 3600) (by decide) hseconds.hasValue
    (by exact_mod_cast WithTop.coe_le_coe.mp hle)

/-- **Every load has a period.** -/
theorem period?_eq_some (rate : Float) : period? rate = some (period rate) := by
  refine (Option.getD_of_ne_none ?_ hour).symm
  by_cases hrate : 0 < rate
  · obtain ⟨span, hspan, -⟩ := exists_ofSeconds?_periodSeconds hrate
    rw [period?_of_pos hrate, hspan]
    exact Option.some_ne_none _
  · rw [period?_of_not_pos hrate]
    exact Option.some_ne_none _

/-- A rate that is not positive has the period of no load. -/
theorem period_of_not_pos (hrate : ¬ 0 < rate) : period rate = hour := by
  rw [period, period?_of_not_pos hrate, Option.getD_some]

/-- The period of a positive rate is the span of its seconds, or the shortest period if that is
longer. -/
theorem exists_ofSeconds?_period (hrate : 0 < rate) :
    ∃ span, Span.ofSeconds? (periodSeconds rate) = some span ∧
      span.nanos ≤ 3600 * nanosPerSecond ∧
      (period rate).nanos = max span.nanos shortest := by
  obtain ⟨span, hspan, hnanos⟩ := exists_ofSeconds?_periodSeconds hrate
  have hperiod := period?_eq_some rate
  rw [period?_of_pos hrate, hspan, Option.map_some, Option.some_inj] at hperiod
  refine ⟨span, hspan, hnanos, ?_⟩
  rw [← hperiod, Span.nanos_max]

/-- No period is shorter than the shortest one. -/
theorem le_period (rate : Float) : shortest ≤ (period rate).nanos := by
  by_cases hrate : 0 < rate
  · obtain ⟨span, -, -, hperiod⟩ := exists_ofSeconds?_period hrate
    rw [hperiod]
    exact le_max_right _ _
  · rw [period_of_not_pos hrate]
    decide

/-- No period is longer than an hour. -/
theorem period_le (rate : Float) : (period rate).nanos ≤ 3600 * nanosPerSecond := by
  by_cases hrate : 0 < rate
  · obtain ⟨span, -, hspan, hperiod⟩ := exists_ofSeconds?_period hrate
    rw [hperiod]
    exact max_le hspan (by decide)
  · rw [period_of_not_pos hrate]
    exact le_rfl

/-- A number of sends is turned into the number nearest to it. -/
theorem hasSize_toFloat_permits (permits : UInt32) :
    HasSize permits.toFloat (nearest permits.toNat) := by
  have hword : permits.toFloat = permits.toUInt64.toFloat := rfl
  rw [hword]
  exact hasSize_toFloat permits.toUInt64

/-- **The seconds that a reservation takes are those of a span**, unless they are those of the
longest interval or more. -/
theorem exists_ofSeconds?_div (permits : UInt32) (hrate : 0 < rate)
    (hshort : ¬ longest.seconds ≤ permits.toFloat / rate) :
    ∃ span, Span.ofSeconds? (permits.toFloat / rate) = some span := by
  obtain ⟨s, hseconds⟩ := exists_hasSize_div (hasSize_toFloat_permits permits) hrate
  rw [hasSize_longest.le_iff hseconds, not_le, ← hseconds.lt_iff hasSize_longest] at hshort
  obtain ⟨q, hq, hlt⟩ := exists_hasSize_of_lt_bound hseconds hasSize_longest hshort
  obtain ⟨span, hspan, -⟩ := Span.exists_ofSeconds? (k := 60) (by decide) hq.hasValue
    (by exact_mod_cast hlt.le)
  exact ⟨span, hspan⟩

/-- **Every reservation has an interval.** -/
theorem interval?_eq_some (rate : Float) (permits : UInt32) :
    interval? rate permits = some (interval rate permits) := by
  refine (Option.getD_of_ne_none ?_ longest).symm
  by_cases hrate : 0 < rate
  · rw [interval?_of_pos hrate]
    split_ifs with hlong
    · exact Option.some_ne_none _
    · obtain ⟨span, hspan⟩ := exists_ofSeconds?_div permits hrate hlong
      rw [hspan]
      exact Option.some_ne_none _
  · rw [interval?_of_nothing (nothing_of_not_pos hrate)]
    exact Option.some_ne_none _

/-- A rate that is not positive has the longest interval. -/
theorem interval_of_not_pos (hrate : ¬ 0 < rate) (permits : UInt32) :
    interval rate permits = longest :=
  interval_of_nothing (nothing_of_not_pos hrate) permits

/-- So many seconds are the longest interval. -/
theorem interval_of_longest_le {permits : UInt32} (hrate : 0 < rate)
    (hlong : longest.seconds ≤ permits.toFloat / rate) : interval rate permits = longest := by
  have hinterval := interval?_eq_some rate permits
  rw [interval?_of_pos hrate, if_pos hlong] at hinterval
  exact (Option.some_inj.mp hinterval).symm

/-- Fewer seconds are turned into the interval. -/
theorem ofSeconds?_eq_some_interval {permits : UInt32} (hrate : 0 < rate)
    (hshort : ¬ longest.seconds ≤ permits.toFloat / rate) :
    Span.ofSeconds? (permits.toFloat / rate) = some (interval rate permits) := by
  have hinterval := interval?_eq_some rate permits
  rwa [interval?_of_pos hrate, if_neg hshort] at hinterval

end Pacing

end FlowControl
