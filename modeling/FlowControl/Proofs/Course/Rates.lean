import FlowControl.Proofs.Course.Thresholds
import FlowControl.Proofs.Time.Seconds

/-!
# The rates of windows

Counts fill 64 bits and windows last from a nanosecond to almost `2 ^ 64` seconds, but the
quotients of the two stay between `2 ^ -65` and `2 ^ 94`, far from what is too large or too small
for a number. So a rate is zero only where nothing was counted, and since rounding keeps the order,
a larger count has no smaller rate, and a longer window has no larger one. What a window is judged
by tells whether anything was sent in it, up to the wrap of the meters.
-/

namespace FlowControl

open Binary64

/-- The number with no bit set is zero. -/
theorem Binary64.toBits_eq_zero_iff {x : Float} : x.toBits = 0 ↔ x = 0 := by
  constructor
  · intro h
    obtain ⟨bits, hvalid⟩ := x
    obtain rfl : bits = 0 := h
    rfl
  · rintro rfl
    rfl

namespace Meter

variable {window longer : Span} {count count' : UInt64}

/-- A count has no larger rate in a longer window. -/
theorem perSecondSize_anti (hempty : window.nanos ≠ 0) (h : window.nanos ≤ longer.nanos)
    (count : UInt64) : perSecondSize longer count ≤ perSecondSize window count := by
  have hempty' : longer.nanos ≠ 0 := by omega
  rw [perSecondSize, if_neg hempty', perSecondSize, if_neg hempty]
  apply nearest_mono (quotient_nonneg hempty')
  exact div_le_div_of_nonneg_left (nearest_nonneg (Nat.cast_nonneg _))
    (Span.secondsSize_pos hempty) (Span.secondsSize_mono h)

/-- Every rate of a count is finite, whatever the window. -/
theorem isFinite_perSecond (window : Span) (count : UInt64) :
    (perSecond window count).isFinite = true :=
  (hasSize_perSecond window count).isFinite_iff.mpr WithTop.coe_ne_top

/-- A rate is positive where something was counted, and there alone. -/
theorem perSecond_pos_iff (hempty : window.nanos ≠ 0) :
    0 < perSecond window count ↔ count ≠ 0 := by
  rw [hasSize_zero.lt_iff (hasSize_perSecond window count)]
  constructor
  · rintro hpos rfl
    exact hpos.ne' (WithTop.coe_eq_zero.mpr (perSecondSize_eq_zero rfl))
  · intro hcount
    exact WithTop.coe_lt_coe.mpr (perSecondSize_pos hempty (toNat_pos_of_ne_zero hcount))

/-- In a window that is not empty, only a count of zero has the rate zero. -/
theorem perSecond_eq_zero_iff (hempty : window.nanos ≠ 0) :
    perSecond window count = 0 ↔ count = 0 := by
  constructor
  · intro hzero
    by_contra hcount
    have hpos := (perSecond_pos_iff hempty).mpr hcount
    rw [hzero, hasSize_zero.lt_iff hasSize_zero] at hpos
    exact lt_irrefl 0 hpos
  · rintro rfl
    apply (hasSize_perSecond window 0).eq_of_eq hasSize_zero
    exact WithTop.coe_eq_zero.mpr (perSecondSize_eq_zero rfl)

/-- An empty window has no rate, whatever was counted. -/
theorem perSecond_of_empty (hempty : window.nanos = 0) (count : UInt64) :
    perSecond window count = 0 := by
  apply (hasSize_perSecond window count).eq_of_eq hasSize_zero
  exact WithTop.coe_eq_zero.mpr (if_pos hempty)

/-- A larger count has no smaller rate, in an empty window as well. -/
theorem perSecond_mono (window : Span) (h : count ≤ count') :
    perSecond window count ≤ perSecond window count' := by
  rw [(hasSize_perSecond window count).le_iff (hasSize_perSecond window count')]
  apply WithTop.coe_le_coe.mpr
  by_cases hempty : window.nanos = 0
  · rw [perSecondSize, if_pos hempty, perSecondSize, if_pos hempty]
  · exact perSecondSize_mono hempty h

/-- A count has no larger rate in a longer window. -/
theorem perSecond_anti (hempty : window.nanos ≠ 0) (h : window.nanos ≤ longer.nanos)
    (count : UInt64) : perSecond longer count ≤ perSecond window count := by
  rw [(hasSize_perSecond longer count).le_iff (hasSize_perSecond window count)]
  exact WithTop.coe_le_coe.mpr (perSecondSize_anti hempty h count)

end Meter

namespace Course

open Meter (perSecond)

variable {policy : Policy} {peer : Peer} {millis : UInt64} {past recent : List Step}

/-- The rate of messages in the verdict on a window is positive where something was sent in the
window, up to the wrap of the meters. -/
theorem outgoing_pos_iff (h : OpenSince policy (start policy peer millis) past recent) :
    0 < (policy.verdict ((start policy peer millis).run policy (past ++ recent)).flow).outgoing ↔
      recorded .outgoing recent % 2 ^ 64 ≠ 0 := by
  rw [verdict_of_openSince h, Tuning.verdict_outgoing,
    Meter.perSecond_pos_iff policy.window_nanos_ne_zero, ne_eq, ← UInt64.toNat_inj,
    UInt64.toNat_ofNat']
  rfl

/-- **Rates are well behaved.** In a window that is not empty every rate is finite, it is the zero
with a clear sign bit where nothing was counted, and it is positive everywhere else. Rates do not
fall with the count, and they do not rise with the length of the window. An empty window has the
zero with a clear sign bit. And at every point of every run the rate of messages is positive exactly
if what was sent since the window was opened is not zero, up to the wrap of the meters. -/
theorem rates_regular :
    (∀ (window : Span) (count : UInt64), window.nanos ≠ 0 →
      (perSecond window count).isFinite = true ∧
      ((perSecond window count).toBits = 0 ↔ count = 0) ∧
      (0 < perSecond window count ↔ count ≠ 0)) ∧
    (∀ (window : Span) (count count' : UInt64), count ≤ count' →
      perSecond window count ≤ perSecond window count') ∧
    (∀ (window longer : Span) (count : UInt64), window.nanos ≠ 0 → window.nanos ≤ longer.nanos →
      perSecond longer count ≤ perSecond window count) ∧
    (∀ (window : Span) (count : UInt64), window.nanos = 0 → (perSecond window count).toBits = 0) ∧
    ∀ (policy : Policy) (peer : Peer) (millis : UInt64) (steps : List Step),
      ∃ past recent, steps = past ++ recent ∧
        OpenSince policy (start policy peer millis) past recent ∧
        (0 < (policy.verdict ((start policy peer millis).run policy steps).flow).outgoing ↔
          recorded .outgoing recent % 2 ^ 64 ≠ 0) := by
  refine ⟨?_, ?_, ?_, ?_, ?_⟩
  · intro window count hempty
    rw [toBits_eq_zero_iff]
    exact ⟨Meter.isFinite_perSecond window count, Meter.perSecond_eq_zero_iff hempty,
      Meter.perSecond_pos_iff hempty⟩
  · intro window count count' h
    exact Meter.perSecond_mono window h
  · intro window longer count hempty h
    exact Meter.perSecond_anti hempty h count
  · intro window count hempty
    exact toBits_eq_zero_iff.mpr (Meter.perSecond_of_empty hempty count)
  · intro policy peer millis steps
    obtain ⟨past, recent, rfl, hopen⟩ := exists_openSince steps
    exact ⟨past, recent, rfl, hopen, outgoing_pos_iff hopen⟩

/-- A full count in a nanosecond, one event in the longest window, and the rates between them. -/
theorem rates_regular_extremes :
    let shortest : Span := ⟨1, by decide⟩
    let longest : Span := ⟨wordCount * nanosPerSecond - 1, by decide⟩
    let most : UInt64 := 18446744073709551615
    shortest.nanos ≠ 0 ∧ longest.nanos ≠ 0 ∧ shortest.nanos ≤ longest.nanos ∧ 1 ≤ most ∧
      (perSecond shortest most).isFinite = true ∧ 0 < perSecond longest 1 ∧
      perSecond longest 1 ≤ perSecond shortest 1 ∧
      perSecond shortest 1 ≤ perSecond shortest most ∧
      Span.zero.nanos = 0 ∧ (perSecond .zero most).toBits = 0 := by
  intro shortest longest most
  have hshortest : shortest.nanos ≠ 0 := by decide
  have hlongest : longest.nanos ≠ 0 := by decide
  have hspans : shortest.nanos ≤ longest.nanos := by decide
  have hcounts : 1 ≤ most := by decide
  obtain ⟨hwindow, hmono, hanti, hzero, -⟩ := rates_regular
  exact ⟨hshortest, hlongest, hspans, hcounts, (hwindow shortest most hshortest).1,
    (hwindow longest 1 hlongest).2.2.mpr (by decide), hanti shortest longest 1 hshortest hspans,
    hmono shortest 1 most hcounts, rfl, hzero .zero most rfl⟩

end Course

end FlowControl
