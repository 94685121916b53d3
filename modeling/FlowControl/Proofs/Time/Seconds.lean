import FlowControl.Proofs.Decimal.Shortest
import FlowControl.Proofs.Flow.Rates

/-!
# The seconds of longer spans

A longer span takes no fewer seconds. The whole seconds and the rest are rounded one by one, and
then their sum is. As long as whole seconds are exact, what is less than a second cannot carry the
sum past the next whole one. From `2 ^ 53` seconds on the numbers are two seconds apart or more, so
what is less than a second is lost in the sum, and only the whole seconds count.
-/

namespace FlowControl

namespace Binary64

/-- From `2 ^ 53` on a number does not change when less than one is added to it. -/
theorem nearest_add_of_lt_one {y x : ℚ} (hy : Representable y) (hlarge : 2 ^ 53 ≤ y)
    (hx : 0 ≤ x) (hlt : x < 1) : nearest (y + x) = y := by
  have hunit : (0 : ℚ) < 2 ^ lastPlace y := zpow_pos two_pos _
  have hplace : 1 ≤ lastPlace y := by
    have hbelow := hlarge.trans_lt (lt_two_zpow_lastPlace y)
    rw [← zpow_natCast, zpow_lt_zpow_iff_right₀ one_lt_two] at hbelow
    omega
  obtain ⟨m, hm, hvalue⟩ := hy.exists_eq_mul
  have hnormal : 2 ^ 52 ≤ m := by
    have hlow := two_zpow_lastPlace_le ((pow_pos two_pos 53).trans_le hlarge) (by omega)
    rw [add_comm, zpow_add₀ two_ne_zero] at hlow
    conv_rhs at hlow => rw [hvalue]
    exact_mod_cast le_of_mul_le_mul_right hlow hunit
  -- in units of the last place the summand is less than a half
  have hhalf : x / 2 ^ lastPlace y < 1 / 2 := by
    have htwo : (2 : ℚ) ≤ 2 ^ lastPlace y := by
      simpa using zpow_le_zpow_right₀ (one_le_two (α := ℚ)) hplace
    rw [div_lt_div_iff₀ hunit two_pos]
    linarith
  have hnonneg : 0 ≤ x / 2 ^ lastPlace y := div_nonneg hx hunit.le
  have hunits : (y + x) / 2 ^ lastPlace y = m + x / 2 ^ lastPlace y := by
    rw [add_div]
    congr 1
    exact (div_eq_iff hunit.ne').mpr hvalue
  have hlow : (2 ^ 52 : ℚ) ≤ m := by exact_mod_cast hnormal
  have hhigh : (m : ℚ) + 1 ≤ 2 ^ 53 := by exact_mod_cast hm
  have hrounded : nearestInt ((y + x) / 2 ^ lastPlace y) = m := by
    rw [hunits]
    apply nearestInt_eq
    · push_cast
      linarith
    · push_cast
      linarith
    · intro _
      push_cast
      constructor <;> linarith
  have hscaled : nearest (y + x) = (m : ℤ) * 2 ^ lastPlace y := by
    apply nearest_eq_of_scaled (by linarith) (neg_1074_le_lastPlace y) _ _ hrounded
    · left
      rw [hunits]
      linarith
    · rw [hunits]
      linarith
  rw [hscaled, Int.cast_natCast, ← hvalue]

end Binary64

open Binary64

namespace Span

variable {span longer : Span}

/-- What is left of the whole seconds is rounded to less than a second. -/
theorem nearest_subsec_lt_one (span : Span) : nearest (span.subsecNanos / 1000000000) < 1 := by
  have hbelow : Representable ((2 ^ 30 - 1 : ℕ) * 2 ^ (-30 : ℤ)) :=
    Representable.of_mul (by norm_num) (by norm_num)
  have hle : (span.subsecNanos : ℚ) / 1000000000 ≤ (2 ^ 30 - 1 : ℕ) * 2 ^ (-30 : ℤ) := by
    have hnanos : (span.subsecNanos : ℚ) ≤ 999999999 := by
      exact_mod_cast Nat.le_of_lt_succ span.subsecNanos_lt
    rw [div_le_iff₀ (by norm_num)]
    norm_num
    linarith
  calc nearest (span.subsecNanos / 1000000000) ≤ (2 ^ 30 - 1 : ℕ) * 2 ^ (-30 : ℤ) :=
        hbelow.nearest_le (by positivity) hle
    _ < 1 := by norm_num

/-- Seconds are at least as many as the whole seconds, rounded. -/
theorem nearest_secs_le_secondsSize (span : Span) : nearest span.secs ≤ span.secondsSize := by
  exact (representable_nearest (Nat.cast_nonneg _)).le_nearest span.sum_nonneg (le_add_of_nonneg_right span.nearest_subsec_nonneg)

/-- A span has no more seconds than one with more whole seconds. -/
theorem secondsSize_le_nearest_secs (h : span.secs < longer.secs) :
    span.secondsSize ≤ nearest longer.secs := by
  have hsubsec := span.nearest_subsec_lt_one
  by_cases hexact : span.secs < 2 ^ 53
  · -- the next whole second is a number, and it is between the two
    have hnext : Representable (span.secs + 1 : ℕ) := .natCast hexact
    have hsum : nearest span.secs + nearest (span.subsecNanos / 1000000000) ≤
        (span.secs + 1 : ℕ) := by
      rw [(Representable.natCast hexact.le).nearest_eq]
      push_cast
      linarith
    calc span.secondsSize ≤ (span.secs + 1 : ℕ) := hnext.nearest_le span.sum_nonneg hsum
      _ ≤ nearest longer.secs := hnext.le_nearest (Nat.cast_nonneg _) (by exact_mod_cast h)
  · have hlarge : 2 ^ 53 ≤ nearest span.secs :=
      (Representable.two_pow 53).le_nearest (Nat.cast_nonneg _)
        (by exact_mod_cast not_lt.mp hexact)
    have hlost : span.secondsSize = nearest span.secs :=
      nearest_add_of_lt_one (representable_nearest (Nat.cast_nonneg _)) hlarge
        span.nearest_subsec_nonneg hsubsec
    rw [hlost]
    exact nearest_mono (Nat.cast_nonneg _) (by exact_mod_cast h.le)

/-- **A longer span has no fewer seconds.** -/
theorem secondsSize_mono (h : span.nanos ≤ longer.nanos) :
    span.secondsSize ≤ longer.secondsSize := by
  have hsecs : span.secs ≤ longer.secs := Nat.div_le_div_right h
  rcases hsecs.lt_or_eq with hlt | heq
  · exact (secondsSize_le_nearest_secs hlt).trans longer.nearest_secs_le_secondsSize
  · have hsubsec : span.subsecNanos ≤ longer.subsecNanos := by
      simp only [secs, subsecNanos, nanosPerSecond] at heq ⊢
      omega
    have hrest : nearest (span.subsecNanos / 1000000000) ≤
        nearest (longer.subsecNanos / 1000000000) :=
      nearest_mono (by positivity)
        (div_le_div_of_nonneg_right (by exact_mod_cast hsubsec) (by norm_num))
    rw [secondsSize, secondsSize, heq]
    exact nearest_mono (heq ▸ span.sum_nonneg) (by linarith)

end Span

end FlowControl
