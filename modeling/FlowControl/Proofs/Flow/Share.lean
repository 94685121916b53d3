import FlowControl.Proofs.Binary64.Relative
import FlowControl.Proofs.Flow.Law
import FlowControl.Proofs.Flow.Rates

/-!
# The share of a window

The share of the messages of a window that was acknowledged is a quotient of two counts, and the
length of the window cancels. What is compared with the ratios of a tuning is the rounded quotient
of two rates, each a rounded count divided by the seconds of the window and rounded again. That
is five roundings away from the share, so a share that is farther than that from a ratio is on
the same side of it in every window. A share that is closer may fall on either side, by the
length of the window.
-/

namespace FlowControl

open Binary64

/-- The share of the messages that was acknowledged, by their counts. A peer to which nothing was
sent keeps up. -/
def countShare (acknowledged sent : UInt64) : ℚ :=
  if sent = 0 then 1 else acknowledged.toNat / sent.toNat

/-- A word that is not zero is positive. -/
theorem toNat_pos_of_ne_zero {n : UInt64} (h : n ≠ 0) : 0 < n.toNat :=
  Nat.pos_of_ne_zero fun hzero => h (UInt64.toNat_inj.mp hzero)

/-- If something was sent, the share is the quotient of the counts. -/
theorem countShare_of_ne_zero {acknowledged sent : UInt64} (h : sent ≠ 0) :
    countShare acknowledged sent = acknowledged.toNat / sent.toNat :=
  if_neg h

/-- A share is clear of a threshold if it differs from it by more than a `2 ^ -50`. -/
def ClearOf (threshold share : ℚ) : Prop :=
  threshold * (1 + 2 ^ (-50 : ℤ)) ≤ share ∨ share * (1 + 2 ^ (-50 : ℤ)) ≤ threshold

/-- No share is negative. -/
theorem countShare_nonneg (acknowledged sent : UInt64) : 0 ≤ countShare acknowledged sent := by
  unfold countShare
  split_ifs <;> positivity

/-- Five roundings are less than a `2 ^ -50`. -/
theorem five_roundings_lt : (1 + roundoff) ^ 5 < 1 + 2 ^ (-50 : ℤ) := by
  unfold roundoff
  norm_num

/-- Rounding does not carry a share across a threshold that it is clear of. -/
theorem ClearOf.lt_or_lt {threshold share ratio : ℚ} (h : ClearOf threshold share)
    (hthreshold : 0 < threshold) (hratio : Within 5 ratio share) :
    (threshold < share ∧ threshold < ratio) ∨ (share < threshold ∧ ratio < threshold) := by
  have hroundings := five_roundings_lt
  have hpower : 1 ≤ (1 + roundoff) ^ 5 := one_le_pow₀ one_le_one_add_roundoff
  rcases h with habove | hbelow
  · left
    have hlt : threshold * (1 + roundoff) ^ 5 < share :=
      (mul_lt_mul_of_pos_left hroundings hthreshold).trans_le habove
    refine ⟨(le_mul_of_one_le_right hthreshold.le hpower).trans_lt hlt, ?_⟩
    exact lt_of_mul_lt_mul_right (hlt.trans_le hratio.2) (zero_le_one.trans hpower)
  · right
    have hgap : (0 : ℚ) < 1 + 2 ^ (-50 : ℤ) := by positivity
    have hshare : share < threshold := by
      by_contra hle
      rw [not_lt] at hle
      have hpos := hthreshold.trans_le hle
      have hmore : share < share * (1 + 2 ^ (-50 : ℤ)) :=
        lt_mul_of_one_lt_right hpos (by norm_num)
      linarith
    refine ⟨hshare, ?_⟩
    rcases le_or_gt share 0 with hnone | hpos
    · have hzero : share * (1 + roundoff) ^ 5 ≤ 0 :=
        mul_nonpos_of_nonpos_of_nonneg hnone (zero_le_one.trans hpower)
      exact (hratio.1.trans hzero).trans_lt hthreshold
    · calc ratio ≤ share * (1 + roundoff) ^ 5 := hratio.1
        _ < share * (1 + 2 ^ (-50 : ℤ)) := mul_lt_mul_of_pos_left hroundings hpos
        _ ≤ threshold := hbelow

namespace Meter

variable {window : Span} {count : UInt64}

/-- A count that is not zero is rounded to a normal number. -/
theorem within_nearest_toNat (count : UInt64) : Within 1 (nearest count.toNat) count.toNat := by
  rcases Nat.eq_zero_or_pos count.toNat with hzero | hpos
  · rw [hzero, Nat.cast_zero, nearest_zero]
    exact Within.zero 1
  · have hone : (1 : ℚ) ≤ count.toNat := by exact_mod_cast hpos
    exact within_nearest ((zpow_le_one_of_nonpos₀ one_le_two (by norm_num)).trans hone)

/-- A rate is two roundings away from its count divided by the seconds of the window. -/
theorem within_perSecondSize (hempty : window.nanos ≠ 0) (count : UInt64) :
    Within 2 (perSecondSize window count) (count.toNat / window.secondsSize) := by
  have hcount := (within_nearest_toNat count).div_right (Span.secondsSize_pos hempty)
  rcases Nat.eq_zero_or_pos count.toNat with hzero | hpos
  · rw [perSecondSize_eq_zero hzero, hzero, Nat.cast_zero, zero_div]
    exact Within.zero 2
  · rw [perSecondSize, if_neg hempty]
    have hnormal := le_quotient hempty hpos
    have hrounded : Within 1 (nearest (nearest count.toNat / window.secondsSize))
        (nearest count.toNat / window.secondsSize) :=
      within_nearest ((zpow_le_zpow_right₀ one_le_two (by norm_num)).trans hnormal)
    have hboth : Within (1 + 1) _ _ := hrounded.trans hcount
    exact hboth

/-- A count that is not zero has a positive rate. -/
theorem perSecondSize_pos (hempty : window.nanos ≠ 0) (hcount : 0 < count.toNat) :
    0 < perSecondSize window count :=
  (zpow_pos two_pos _).trans_le (le_perSecondSize hempty hcount)

/-- A larger count has no smaller rate. -/
theorem perSecondSize_mono {count' : UInt64} (hempty : window.nanos ≠ 0) (h : count ≤ count') :
    perSecondSize window count ≤ perSecondSize window count' := by
  have hcount : nearest count.toNat ≤ nearest count'.toNat :=
    nearest_mono (Nat.cast_nonneg _) (by exact_mod_cast UInt64.le_iff_toNat_le.mp h)
  rw [perSecondSize, if_neg hempty, perSecondSize, if_neg hempty]
  exact nearest_mono (quotient_nonneg hempty)
    (div_le_div_of_nonneg_right hcount (Span.secondsSize_pos hempty).le)

/-- In a window that is longer by a power of two a count has a rate that is smaller by it. -/
theorem perSecondSize_of_mul_two_zpow {window' : Span} {k : ℤ} (hempty : window.nanos ≠ 0)
    (hempty' : window'.nanos ≠ 0) (h : window'.secondsSize = window.secondsSize * 2 ^ k)
    (count : UInt64) :
    perSecondSize window' count = perSecondSize window count * 2 ^ (-k) := by
  have hquotient : nearest count.toNat / window'.secondsSize =
      nearest count.toNat / window.secondsSize * 2 ^ (-k) := by
    rw [h, zpow_neg, ← div_eq_mul_inv, div_div]
  rcases Nat.eq_zero_or_pos count.toNat with hzero | hpos
  · rw [perSecondSize_eq_zero hzero, perSecondSize_eq_zero hzero, zero_mul]
  · rw [perSecondSize, if_neg hempty', perSecondSize, if_neg hempty]
    have hnormal {e : ℤ} (he : -1022 ≤ e) {q : ℚ} (hq : 2 ^ e ≤ q) : 2 ^ (-1022 : ℤ) ≤ q :=
      (zpow_le_zpow_right₀ one_le_two he).trans hq
    have hlong := hnormal (by norm_num) (le_quotient hempty' hpos)
    rw [hquotient] at hlong ⊢
    exact nearest_mul_two_zpow (hnormal (by norm_num) (le_quotient hempty hpos)) hlong

/-- In a window of a power of two of seconds the rate of a count of at most 53 bits is exact. -/
theorem perSecondSize_of_two_zpow {k : ℤ} (hempty : window.nanos ≠ 0)
    (h : window.secondsSize = 2 ^ k) (hcount : count.toNat ≤ 2 ^ 53) :
    perSecondSize window count = count.toNat * 2 ^ (-k) := by
  have hk : k ≤ 65 := by
    have hle := window.secondsSize_le
    rw [h, ← zpow_natCast, zpow_le_zpow_iff_right₀ one_lt_two] at hle
    exact hle
  rw [perSecondSize, if_neg hempty, (Representable.natCast hcount).nearest_eq, h, div_eq_mul_inv,
    ← zpow_neg, (Representable.of_mul hcount (by omega)).nearest_eq]

end Meter

namespace Tuning

variable {window : Span} {acknowledged sent : UInt64}

/-- The rates of a window in which something was sent, and their quotient. -/
theorem hasSize_ratio_perSecond (hempty : window.nanos ≠ 0) (hsent : 0 < sent.toNat) :
    HasSize (ratio (Meter.perSecond window acknowledged) (Meter.perSecond window sent))
      (nearest (Meter.perSecondSize window acknowledged / Meter.perSecondSize window sent)) := by
  have hsize := hasSize_ratio (Meter.hasSize_perSecond window acknowledged)
    (Meter.hasSize_perSecond window sent)
  have hpos := Meter.perSecondSize_pos hempty hsent
  have hnonneg := (Meter.hasSize_perSecond window acknowledged).representable.nonneg
  have hleast := Meter.le_perSecondSize hempty hsent
  have hmost : Meter.perSecondSize window acknowledged / Meter.perSecondSize window sent ≤
      2 ^ 159 := by
    rw [div_le_iff₀ hpos]
    calc Meter.perSecondSize window acknowledged ≤ 2 ^ 94 := Meter.perSecondSize_le _ _
      _ = 2 ^ 159 * 2 ^ (-65 : ℤ) := by norm_num
      _ ≤ 2 ^ 159 * Meter.perSecondSize window sent :=
        mul_le_mul_of_nonneg_left hleast (by positivity)
  rwa [if_pos hpos, rounded_eq_nearest (by norm_num) (div_nonneg hnonneg hpos.le) hmost] at hsize

/-- A peer to which nothing was sent has the ratio one. -/
theorem ratio_of_sent_eq_zero (incoming : Float) (window : Span) :
    ratio incoming (Meter.perSecond window 0) = 1 := by
  have hsize := Meter.hasSize_perSecond window 0
  rw [Meter.perSecondSize_eq_zero rfl] at hsize
  exact if_neg (mt (hasSize_zero.lt_iff hsize).mp (lt_irrefl _))

/-- The ratio of a window is five roundings away from the share of its counts. -/
theorem exists_hasSize_ratio_within (hempty : window.nanos ≠ 0) (acknowledged sent : UInt64) :
    ∃ r : ℚ,
      HasSize (ratio (Meter.perSecond window acknowledged) (Meter.perSecond window sent)) r ∧
        Within 5 r (countShare acknowledged sent) := by
  by_cases hzero : sent = 0
  · rw [hzero, ratio_of_sent_eq_zero, countShare, if_pos rfl]
    exact ⟨1, hasSize_one, Within.refl 5 zero_le_one⟩
  have hsent : 0 < sent.toNat := toNat_pos_of_ne_zero hzero
  refine ⟨_, hasSize_ratio_perSecond hempty hsent, ?_⟩
  have hseconds := Span.secondsSize_pos hempty
  have hsent' : (0 : ℚ) < sent.toNat := by exact_mod_cast hsent
  have hpos := Meter.perSecondSize_pos hempty hsent
  have hshare : countShare acknowledged sent =
      acknowledged.toNat / window.secondsSize / (sent.toNat / window.secondsSize) := by
    rw [countShare_of_ne_zero hzero, div_div_div_cancel_right₀ hseconds.ne']
  have hnumerator := (Meter.within_perSecondSize hempty acknowledged).div_right hpos
  have hdenominator := (Meter.within_perSecondSize hempty sent).div_left hpos
    (div_pos hsent' hseconds) (div_nonneg (Nat.cast_nonneg acknowledged.toNat) hseconds.le)
  have hrounded : Within 1
      (nearest (Meter.perSecondSize window acknowledged / Meter.perSecondSize window sent))
      (Meter.perSecondSize window acknowledged / Meter.perSecondSize window sent) := by
    rcases Nat.eq_zero_or_pos acknowledged.toNat with hnone | hsome
    · rw [Meter.perSecondSize_eq_zero hnone, zero_div, nearest_zero]
      exact Within.zero 1
    · apply within_nearest
      rw [le_div_iff₀ hpos]
      calc (2 : ℚ) ^ (-1022 : ℤ) * Meter.perSecondSize window sent ≤ 2 ^ (-1022 : ℤ) * 2 ^ 94 :=
            mul_le_mul_of_nonneg_left (Meter.perSecondSize_le _ _) (by positivity)
        _ ≤ 2 ^ (-65 : ℤ) := by
            rw [← zpow_natCast, ← zpow_add₀ two_ne_zero]
            exact zpow_le_zpow_right₀ one_le_two (by norm_num)
        _ ≤ Meter.perSecondSize window acknowledged := Meter.le_perSecondSize hempty hsome
  rw [hshare]
  have hall : Within (1 + (2 + 2)) _ _ := hrounded.trans (hnumerator.trans hdenominator)
  exact hall

/-- A peer that acknowledged at least what was sent to it has a ratio of at least one. -/
theorem one_le_ratio (hempty : window.nanos ≠ 0) (h : sent ≤ acknowledged) :
    1 ≤ ratio (Meter.perSecond window acknowledged) (Meter.perSecond window sent) := by
  by_cases hzero : sent = 0
  · rw [hzero, ratio_of_sent_eq_zero]
    exact (hasSize_one.le_iff hasSize_one).mpr le_rfl
  have hsent : 0 < sent.toNat := toNat_pos_of_ne_zero hzero
  rw [hasSize_one.le_iff (hasSize_ratio_perSecond hempty hsent)]
  have hpos := Meter.perSecondSize_pos hempty hsent
  have hone : 1 ≤ Meter.perSecondSize window acknowledged / Meter.perSecondSize window sent := by
    rw [le_div_iff₀ hpos, one_mul]
    exact Meter.perSecondSize_mono hempty h
  exact WithTop.coe_le_coe.mpr (Representable.one.le_nearest (zero_le_one.trans hone) hone)

/-- The lengths of two windows that differ by a power of two cancel exactly. -/
theorem ratio_eq_of_mul_two_zpow {window' : Span} {k : ℤ} (hempty : window.nanos ≠ 0)
    (hempty' : window'.nanos ≠ 0) (h : window'.secondsSize = window.secondsSize * 2 ^ k)
    (acknowledged sent : UInt64) :
    ratio (Meter.perSecond window' acknowledged) (Meter.perSecond window' sent) =
      ratio (Meter.perSecond window acknowledged) (Meter.perSecond window sent) := by
  by_cases hzero : sent = 0
  · rw [hzero, ratio_of_sent_eq_zero, ratio_of_sent_eq_zero]
  have hsent : 0 < sent.toNat := toNat_pos_of_ne_zero hzero
  refine (hasSize_ratio_perSecond hempty' hsent).eq_of_eq
    (hasSize_ratio_perSecond hempty hsent) ?_
  rw [Meter.perSecondSize_of_mul_two_zpow hempty hempty' h,
    Meter.perSecondSize_of_mul_two_zpow hempty hempty' h,
    mul_div_mul_right _ _ (zpow_pos two_pos (-k)).ne']

/-- In a window of a power of two of seconds the share of exact counts is rounded once. -/
theorem hasSize_ratio_of_two_zpow {k : ℤ} (hempty : window.nanos ≠ 0)
    (h : window.secondsSize = 2 ^ k) (hacknowledged : acknowledged.toNat ≤ 2 ^ 53)
    (hsent : sent.toNat ≤ 2 ^ 53) :
    HasSize (ratio (Meter.perSecond window acknowledged) (Meter.perSecond window sent))
      (nearest (countShare acknowledged sent)) := by
  by_cases hzero : sent = 0
  · rw [hzero, ratio_of_sent_eq_zero, countShare, if_pos rfl, Representable.one.nearest_eq]
    exact hasSize_one
  have hpos : 0 < sent.toNat := toNat_pos_of_ne_zero hzero
  have hquotient : Meter.perSecondSize window acknowledged / Meter.perSecondSize window sent =
      countShare acknowledged sent := by
    rw [Meter.perSecondSize_of_two_zpow hempty h hacknowledged,
      Meter.perSecondSize_of_two_zpow hempty h hsent,
      mul_div_mul_right _ _ (zpow_pos two_pos (-k)).ne', ← countShare_of_ne_zero hzero]
  rw [← hquotient]
  exact hasSize_ratio_perSecond hempty hpos

end Tuning

end FlowControl
