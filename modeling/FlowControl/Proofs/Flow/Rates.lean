import FlowControl.Flow.Meter
import FlowControl.Proofs.Binary64.Arithmetic

/-!
# The rates of a window

A rate is a count divided by the seconds of the window, each of them rounded. The seconds of a
span that is not empty lie between `2 ^ (-30)` and `2 ^ 65`, so no rate is too large for a
number.
-/

namespace FlowControl

open Binary64

namespace Span

/-- The seconds of a span: the whole seconds and the rest are rounded, and so is their sum. -/
def secondsSize (span : Span) : ℚ :=
  nearest (nearest span.secs + nearest (span.subsecNanos / 1000000000))

variable {span : Span}

/-- The whole seconds of a span fit a word. -/
theorem secs_lt (span : Span) : span.secs < 2 ^ 64 := by
  have := span.nanos_lt
  simp only [wordCount, nanosPerSecond] at this
  simp only [secs, nanosPerSecond]
  omega

/-- Past its whole seconds a span has less than a second. -/
theorem subsecNanos_lt (span : Span) : span.subsecNanos < 1000000000 :=
  Nat.mod_lt _ (by decide)

/-- The rounded whole seconds are not negative. -/
theorem nearest_secs_nonneg (span : Span) : 0 ≤ nearest span.secs :=
  nearest_nonneg (Nat.cast_nonneg _)

/-- The rounded rest of the seconds is not negative. -/
theorem nearest_subsec_nonneg (span : Span) : 0 ≤ nearest (span.subsecNanos / 1000000000) :=
  nearest_nonneg (by positivity)

/-- The whole seconds are rounded to no more than `2 ^ 64`. -/
theorem nearest_secs_le (span : Span) : nearest span.secs ≤ 2 ^ 64 :=
  (Representable.two_pow 64).nearest_le (Nat.cast_nonneg _) (by exact_mod_cast span.secs_lt.le)

/-- The rest of the seconds is at most one. -/
theorem subsec_le_one (span : Span) : (span.subsecNanos : ℚ) / 1000000000 ≤ 1 := by
  rw [div_le_one (by norm_num)]
  exact_mod_cast span.subsecNanos_lt.le

/-- The rest of the seconds is rounded to no more than one. -/
theorem nearest_subsec_le (span : Span) : nearest (span.subsecNanos / 1000000000) ≤ 1 :=
  Representable.one.nearest_le (by positivity) span.subsec_le_one

/-- The rounded parts of a second, before they are added. -/
theorem sum_nonneg (span : Span) :
    0 ≤ nearest span.secs + nearest (span.subsecNanos / 1000000000) :=
  add_nonneg span.nearest_secs_nonneg span.nearest_subsec_nonneg

/-- The two parts of the seconds add up to no more than `2 ^ 65`. -/
theorem sum_le (span : Span) :
    nearest span.secs + nearest (span.subsecNanos / 1000000000) ≤ 2 ^ 65 := by
  linarith [span.nearest_secs_le, span.nearest_subsec_le]

/-- No span is longer than `2 ^ 65` seconds. -/
theorem secondsSize_le (span : Span) : span.secondsSize ≤ 2 ^ 65 :=
  (Representable.two_pow 65).nearest_le span.sum_nonneg span.sum_le

/-- A span that is not empty is not shorter than `2 ^ (-30)` seconds. -/
theorem le_secondsSize (h : span.nanos ≠ 0) : 2 ^ (-30 : ℤ) ≤ span.secondsSize := by
  have hpower : Representable (2 ^ (-30 : ℤ)) := Representable.two_zpow (by norm_num)
  have hsecs := span.nearest_secs_nonneg
  have hsubsec := span.nearest_subsec_nonneg
  apply hpower.le_nearest span.sum_nonneg
  rcases Nat.eq_zero_or_pos span.secs with hzero | hpos
  · have hrest : (1 : ℚ) ≤ span.subsecNanos := by
      have hnat : 1 ≤ span.subsecNanos := by
        simp only [secs, subsecNanos, nanosPerSecond] at hzero ⊢
        omega
      exact_mod_cast hnat
    have hle : (2 : ℚ) ^ (-30 : ℤ) ≤ span.subsecNanos / 1000000000 := by
      rw [le_div_iff₀ (by norm_num)]
      norm_num
      linarith
    linarith [hpower.le_nearest (by positivity) hle]
  · have hle : (1 : ℚ) ≤ span.secs := by exact_mod_cast hpos
    have hpower_le : (2 : ℚ) ^ (-30 : ℤ) ≤ 1 := by norm_num
    linarith [Representable.one.le_nearest (Nat.cast_nonneg _) hle]

/-- The rest of a second is divided into its nanoseconds, which are exact. -/
theorem hasSize_subsec (span : Span) :
    HasSize (span.subsecNanos.toUInt64.toFloat / 1e9)
      (nearest (span.subsecNanos / 1000000000)) := by
  have hlt := span.subsecNanos_lt
  have hword : span.subsecNanos.toUInt64.toNat = span.subsecNanos :=
    UInt64.toNat_ofNat_of_lt' (by simp only [UInt64.size]; omega)
  have hnanos := hasSize_toFloat_of_le (n := span.subsecNanos.toUInt64) (by omega)
  rw [hword] at hnanos
  have hbillion : HasSize 1e9 (1000000000 : ℚ) :=
    hasSize_of_eq_word 1000000000 (by decide) (by decide) Nat.cast_ofNat
  have hone : (span.subsecNanos : ℚ) / 1000000000 ≤ 2 ^ 0 := by simpa using span.subsec_le_one
  have hquotient := hnanos.div hbillion (by norm_num)
  rwa [rounded_eq_nearest (by norm_num) (by positivity) hone] at hquotient

/-- The seconds of a span, as a number. -/
theorem hasSize_seconds (span : Span) : HasSize span.seconds span.secondsSize := by
  have hword : span.secs.toUInt64.toNat = span.secs :=
    UInt64.toNat_ofNat_of_lt' span.secs_lt
  have hsecs := hasSize_toFloat span.secs.toUInt64
  rw [hword] at hsecs
  have hsum := hsecs.add span.hasSize_subsec
  rwa [rounded_eq_nearest (by norm_num) span.sum_nonneg span.sum_le] at hsum

/-- A span takes some seconds unless it is empty. -/
theorem secondsSize_pos (h : span.nanos ≠ 0) : 0 < span.secondsSize :=
  (zpow_pos two_pos _).trans_le (le_secondsSize h)

/-- The empty span takes no seconds. -/
theorem secondsSize_eq_zero (h : span.nanos = 0) : span.secondsSize = 0 := by
  simp [secondsSize, secs, subsecNanos, h, nearest_zero]

end Span

namespace Meter

variable {window : Span} {count : UInt64}

/-- The rate of a count in a window: an empty window has none. -/
def perSecondSize (window : Span) (count : UInt64) : ℚ :=
  if window.nanos = 0 then 0 else nearest (nearest count.toNat / window.secondsSize)

/-- The quotient that a rate is rounded from. -/
theorem quotient_nonneg (h : window.nanos ≠ 0) :
    0 ≤ nearest count.toNat / window.secondsSize :=
  div_nonneg (nearest_nonneg (Nat.cast_nonneg _)) (Span.secondsSize_pos h).le

/-- The quotient that a rate is rounded from is at most `2 ^ 94`, far below what is too large for a
number. -/
theorem quotient_le (h : window.nanos ≠ 0) :
    nearest count.toNat / window.secondsSize ≤ 2 ^ 94 := by
  have hcount : nearest count.toNat ≤ 2 ^ 64 :=
    (Representable.two_pow 64).nearest_le (Nat.cast_nonneg _) (by exact_mod_cast count.toNat_lt.le)
  rw [div_le_iff₀ (Span.secondsSize_pos h)]
  calc nearest count.toNat ≤ 2 ^ 94 * 2 ^ (-30 : ℤ) := by
        norm_num at hcount ⊢
        linarith
    _ ≤ 2 ^ 94 * window.secondsSize :=
      mul_le_mul_of_nonneg_left (Span.le_secondsSize h) (by positivity)

/-- The quotient that the rate of an event or more is rounded from. -/
theorem le_quotient (h : window.nanos ≠ 0) (hcount : 0 < count.toNat) :
    2 ^ (-65 : ℤ) ≤ nearest count.toNat / window.secondsSize := by
  have hone : (1 : ℚ) ≤ nearest count.toNat :=
    Representable.one.le_nearest (Nat.cast_nonneg _) (by exact_mod_cast hcount)
  rw [le_div_iff₀ (Span.secondsSize_pos h)]
  calc (2 : ℚ) ^ (-65 : ℤ) * window.secondsSize ≤ 2 ^ (-65 : ℤ) * 2 ^ 65 :=
        mul_le_mul_of_nonneg_left window.secondsSize_le (by positivity)
    _ = 1 := by norm_num
    _ ≤ nearest count.toNat := hone

/-- No rate of an event or more is smaller than that of one event in the longest window. -/
theorem le_perSecondSize (h : window.nanos ≠ 0) (hcount : 0 < count.toNat) :
    2 ^ (-65 : ℤ) ≤ perSecondSize window count := by
  rw [perSecondSize, if_neg h]
  exact (Representable.two_zpow (by norm_num)).le_nearest (quotient_nonneg h)
    (le_quotient h hcount)

/-- Where nothing is counted there is no rate. -/
theorem perSecondSize_eq_zero (hcount : count.toNat = 0) : perSecondSize window count = 0 := by
  rw [perSecondSize, hcount, Nat.cast_zero, nearest_zero, zero_div, nearest_zero, ite_self]

/-- The rate of a count in a window, as a number. -/
theorem hasSize_perSecond (window : Span) (count : UInt64) :
    HasSize (perSecond window count) (perSecondSize window count) := by
  have hseconds := window.hasSize_seconds
  have hpos : 0 < window.seconds ↔ 0 < window.secondsSize := by
    rw [hasSize_zero.lt_iff hseconds]
    exact WithTop.coe_lt_coe
  unfold perSecond perSecondSize
  by_cases h : window.nanos = 0
  · have hempty : ¬ 0 < window.seconds := by
      rw [hpos, Span.secondsSize_eq_zero h]
      exact lt_irrefl 0
    rw [if_neg hempty, if_pos h]
    exact hasSize_zero
  · have hquotient := (hasSize_toFloat count).div hseconds (Span.secondsSize_pos h)
    rw [rounded_eq_nearest (by norm_num) (quotient_nonneg h) (quotient_le h)] at hquotient
    rw [if_pos (hpos.mpr (Span.secondsSize_pos h)), if_neg h]
    exact hquotient

/-- The rate of a meter is that of its count in its window. -/
theorem hasSize_rate (meter : Meter) :
    HasSize meter.rate (perSecondSize meter.window meter.count) :=
  hasSize_perSecond meter.window meter.count

/-- No rate is larger than that of a full count in a nanosecond. -/
theorem perSecondSize_le (window : Span) (count : UInt64) :
    perSecondSize window count ≤ 2 ^ 94 := by
  unfold perSecondSize
  split_ifs with h
  · positivity
  · exact (Representable.two_pow 94).nearest_le (quotient_nonneg h) (quotient_le h)

end Meter

end FlowControl
