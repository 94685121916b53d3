import FlowControl.Proofs.Binary64.Nearest
import Mathlib

/-!
# Rounding of unpacked floats

The logical model of binary64 arithmetic shifts a significand to its last place, remembers what
it lost in two bits, and rounds. Here this is shown to be `nearest`: the two bits say exactly
where a number lies between two neighbours, so the sums, products and quotients of the model are
the nearest ones to the sums, products and quotients of rationals.
-/

namespace FlowControl.Binary64

open Float.Model Float.Model.UnpackedFloat

/-- An extended mantissa describes a number: the mantissa is its whole part, and the two bits
compare the rest with a half. -/
def Describes (em : ExtendedMantissa) (q : ℚ) : Prop :=
  match em.roundBit, em.stickyBit with
  | false, false => q = em.mantissa
  | false, true => em.mantissa < q ∧ q < em.mantissa + 1 / 2
  | true, false => q = em.mantissa + 1 / 2
  | true, true => em.mantissa + 1 / 2 < q ∧ q < em.mantissa + 1

namespace Describes

variable {em : ExtendedMantissa} {q : ℚ}

/-- A number is no smaller than the mantissa that describes it. -/
theorem mantissa_le (h : Describes em q) : em.mantissa ≤ q := by
  obtain ⟨m, r, s⟩ := em
  cases r <;> cases s <;> simp only [Describes] at h ⊢ <;> linarith

/-- A number is less than one above the mantissa that describes it. -/
theorem lt_mantissa_add_one (h : Describes em q) : q < em.mantissa + 1 := by
  obtain ⟨m, r, s⟩ := em
  cases r <;> cases s <;> simp only [Describes] at h ⊢ <;> linarith

/-- Dropping a bit of the mantissa halves the number that is described. -/
theorem shiftRightOne (h : Describes em q) : Describes em.shiftRightOne (q / 2) := by
  obtain ⟨m, r, s⟩ := em
  obtain ⟨n, rfl | rfl⟩ := Nat.even_or_odd' m
  · have hhalf : 2 * n / 2 = n := by omega
    have hbit : (2 * n % 2 != 0) = false := by simp
    cases r <;> cases s <;>
      simp only [Describes, ExtendedMantissa.shiftRightOne, hhalf, hbit, Bool.or_false,
        Bool.or_true, Nat.cast_mul, Nat.cast_ofNat] at h ⊢ <;>
      first | linarith | (constructor <;> linarith)
  · have hhalf : (2 * n + 1) / 2 = n := by omega
    have hbit : ((2 * n + 1) % 2 != 0) = true := by simp [Nat.add_mod]
    cases r <;> cases s <;>
      simp only [Describes, ExtendedMantissa.shiftRightOne, hhalf, hbit, Bool.or_false,
        Bool.or_true, Nat.cast_mul, Nat.cast_ofNat, Nat.cast_add, Nat.cast_one] at h ⊢ <;>
      first | linarith | (constructor <;> linarith)

/-- Dropping bits of the mantissa divides the number that is described by a power of two. -/
theorem shiftRight (h : Describes em q) (k : ℕ) : Describes (em >>> k) (q / 2 ^ k) := by
  induction k with
  | zero =>
    have hnone : em >>> 0 = em := rfl
    rwa [hnone, pow_zero, div_one]
  | succ k ih =>
    have hstep : em >>> (k + 1) = (em >>> k).shiftRightOne := rfl
    rw [hstep, pow_succ, ← div_div]
    exact ih.shiftRightOne

/-- The two bits decide the rounding. -/
theorem roundedMantissa_eq (h : Describes em q) :
    (em.roundedMantissa : ℤ) = nearestInt q := by
  have hfloor : ⌊q⌋ = em.mantissa := by
    rw [Int.floor_eq_iff]
    exact ⟨by exact_mod_cast h.mantissa_le, by exact_mod_cast h.lt_mantissa_add_one⟩
  have hfract : Int.fract q = q - em.mantissa := by
    rw [Int.fract, hfloor, Int.cast_natCast]
  rw [nearestInt, hfract, hfloor]
  obtain ⟨m, r, s⟩ := em
  cases r <;> cases s <;>
    simp only [Describes, ExtendedMantissa.roundedMantissa, ExtendedMantissa.accuracy,
      Accuracy.roundToNearestEven] at h ⊢
  · rw [if_pos (by linarith)]
  · rw [if_pos (by linarith)]
  · rw [if_neg (by linarith), if_neg (by linarith)]
    push_cast
    ring
  · rw [if_neg (by linarith), if_pos (by linarith)]
    push_cast
    ring

end Describes

/-- The last place of a number between two powers of two. -/
theorem lastPlace_eq {q : ℚ} {k : ℤ} (hlow : 2 ^ k ≤ q) (hhigh : q < 2 ^ (k + 1)) :
    lastPlace q = max (k - 52) (-1074) := by
  have hpos : 0 < q := (zpow_pos two_pos k).trans_le hlow
  have hle : k ≤ Int.log 2 q :=
    (Int.zpow_le_iff_le_log one_lt_two hpos).mp (by exact_mod_cast hlow)
  have hlt : Int.log 2 q < k + 1 :=
    (Int.lt_zpow_iff_log_lt one_lt_two hpos).mp (by exact_mod_cast hhigh)
  have hlog : Int.log 2 q = k := by omega
  rw [lastPlace, hlog]

/-- The last place of a number below the normal ones. -/
theorem lastPlace_eq_of_lt {q : ℚ} (hpos : 0 < q) (h : q < 2 ^ (-1021 : ℤ)) :
    lastPlace q = -1074 := by
  have hlt : Int.log 2 q < -1021 :=
    (Int.lt_zpow_iff_log_lt one_lt_two hpos).mp (by exact_mod_cast h)
  unfold lastPlace
  omega

/-- The exponent that the model shifts to. -/
theorem targetExponent_totalExponent (m : ℕ) (e : ℤ) :
    Format.binary64.targetExponent (totalExponent m e) = max (m.log2 + e - 52) (-1074) := by
  simp only [Format.targetExponent, totalExponent, Format.mantissaBits, Format.minExponent]
  norm_num
  omega

/-- The exponent that the model shifts to is the last place of the number, if the mantissa has
enough bits to begin with. -/
theorem targetExponent_eq_lastPlace {m : ℕ} {e : ℤ} {q : ℚ} (hpos : 0 < q)
    (hlow : (m : ℚ) ≤ q / 2 ^ e) (hhigh : q / 2 ^ e < m + 1)
    (hbits : 2 ^ 52 ≤ m ∨ e ≤ -1074) :
    Format.binary64.targetExponent (totalExponent m e) = lastPlace q := by
  have he : (0 : ℚ) < 2 ^ e := zpow_pos two_pos e
  rw [le_div_iff₀ he] at hlow
  rw [div_lt_iff₀ he] at hhigh
  rw [targetExponent_totalExponent]
  rcases Nat.eq_zero_or_pos m with rfl | hm
  · have hsmall : e ≤ -1074 := by omega
    have hlt : q < 2 ^ (-1021 : ℤ) := by
      calc q < 2 ^ e := by simpa using hhigh
        _ ≤ 2 ^ (-1021 : ℤ) := zpow_le_zpow_right₀ one_le_two (by omega)
    rw [lastPlace_eq_of_lt hpos hlt, Nat.log2_zero]
    omega
  · have hleast : (2 : ℚ) ^ m.log2 ≤ m := by exact_mod_cast Nat.log2_self_le hm.ne'
    have hmost : (m : ℚ) + 1 ≤ 2 ^ (m.log2 + 1) := by exact_mod_cast Nat.lt_log2_self
    rw [← lastPlace_eq (k := m.log2 + e)]
    · rw [zpow_add₀ two_ne_zero, zpow_natCast]
      exact (mul_le_mul_of_nonneg_right hleast he.le).trans hlow
    · rw [show (m.log2 : ℤ) + e + 1 = ((m.log2 + 1 : ℕ) : ℤ) + e by push_cast; ring,
        zpow_add₀ two_ne_zero, zpow_natCast]
      exact hhigh.trans_le (mul_le_mul_of_nonneg_right hmost he.le)

/-- An unpacked float with the given sign is a positive number rounded, of any size: its
significand has 53 bits unless the last place is the least one. -/
def Rounds (sign : Sign) (q : ℚ) : UnpackedFloat → Prop
  | .zero s => s = sign ∧ nearest q = 0
  | .finite s m e _ =>
    s = sign ∧ m < 2 ^ 53 ∧ -1074 ≤ e ∧ (2 ^ 52 ≤ m ∨ e = -1074) ∧ m * 2 ^ e = nearest q
  | .infinity _ => False
  | .notANumber => False

/-- A mantissa of at most 53 bits stays as it is when it is shifted a second time. -/
theorem shiftToTargetExponent_of_lt {m : ℕ} {e : ℤ} (hm : m < 2 ^ 53) (he : -1074 ≤ e) :
    shiftToTargetExponent Format.binary64 m e .exact = (⟨m, false, false⟩, e) := by
  have hlog : m.log2 ≤ 52 := by
    rcases Nat.eq_zero_or_pos m with rfl | hpos
    · simp
    · have := (Nat.log2_lt hpos.ne').mpr hm
      omega
  have hshift : (max ((m.log2 : ℤ) + e - 52) (-1074) - e).toNat = 0 := by omega
  simp only [shiftToTargetExponent, shiftToExponent, targetExponent_totalExponent, hshift]
  simp [ExtendedMantissa.ofMantissaAndAccuracy, HShiftRight.hShiftRight, Nat.repeat]

/-- A mantissa that rounding has carried to `2 ^ 53` drops one bit. -/
theorem shiftToTargetExponent_carry {e : ℤ} (he : -1074 ≤ e) :
    shiftToTargetExponent Format.binary64 (2 ^ 53) e .exact =
      (⟨2 ^ 52, false, false⟩, e + 1) := by
  have hshift : (max (((2 ^ 53 : ℕ).log2 : ℤ) + e - 52) (-1074) - e).toNat = 1 := by
    rw [Nat.log2_two_pow]
    omega
  simp only [shiftToTargetExponent, shiftToExponent, targetExponent_totalExponent, hshift]
  simp [ExtendedMantissa.ofMantissaAndAccuracy, HShiftRight.hShiftRight, Nat.repeat,
    ExtendedMantissa.shiftRightOne]

/-- The first shift leaves the number in units of its last place. -/
theorem shiftToTargetExponent_of_describes {m : ℕ} {e : ℤ} {accuracy : Accuracy} {q : ℚ}
    (hpos : 0 < q)
    (hdescribes : Describes (.ofMantissaAndAccuracy m accuracy) (q / 2 ^ e))
    (hbits : 2 ^ 52 ≤ m ∨ e ≤ -1074) :
    ∃ em, shiftToTargetExponent Format.binary64 m e accuracy = (em, lastPlace q) ∧
      Describes em (q / 2 ^ lastPlace q) := by
  have hmantissa : (ExtendedMantissa.ofMantissaAndAccuracy m accuracy).mantissa = m := by
    unfold ExtendedMantissa.ofMantissaAndAccuracy
    split <;> rfl
  have htarget := targetExponent_eq_lastPlace hpos
    (by simpa only [hmantissa] using hdescribes.mantissa_le)
    (by simpa only [hmantissa] using hdescribes.lt_mantissa_add_one) hbits
  have hshift : e ≤ lastPlace q := by
    rw [← htarget, targetExponent_totalExponent]
    rcases hbits with hm | he
    · have : 52 ≤ m.log2 := (Nat.le_log2 (by omega)).mpr hm
      omega
    · omega
  have hplace : e + ((lastPlace q - e).toNat : ℤ) = lastPlace q := by omega
  refine ⟨ExtendedMantissa.ofMantissaAndAccuracy m accuracy >>> (lastPlace q - e).toNat, ?_, ?_⟩
  · simp only [shiftToTargetExponent, shiftToExponent, htarget]
    rw [hplace]
  · have h := hdescribes.shiftRight (lastPlace q - e).toNat
    rwa [div_div, ← zpow_natCast, ← zpow_add₀ two_ne_zero, hplace] at h

/-- The model's rounding is `nearest`. -/
theorem rounds_roundWithAccuracy {sign : Sign} {m : ℕ} {e : ℤ} {accuracy : Accuracy} {q : ℚ}
    (hpos : 0 < q)
    (hdescribes : Describes (.ofMantissaAndAccuracy m accuracy) (q / 2 ^ e))
    (hbits : 2 ^ 52 ≤ m ∨ e ≤ -1074) :
    Rounds sign q (roundWithAccuracy Format.binary64 sign m e accuracy) := by
  obtain ⟨em, hfirst, hunits⟩ := shiftToTargetExponent_of_describes hpos hdescribes hbits
  have hrounded := hunits.roundedMantissa_eq
  rw [roundWithAccuracy, hfirst]
  dsimp only
  generalize em.roundedMantissa = r at hrounded ⊢
  have hleast := neg_1074_le_lastPlace q
  have hnearest : (r : ℚ) * 2 ^ lastPlace q = nearest q := by
    rw [nearest, ← hrounded, Int.cast_natCast]
  have hmost : r ≤ 2 ^ 53 := by
    obtain ⟨n, hn, heq⟩ := exists_nearestInt_eq hpos.le
    omega
  -- Rounding up may have carried to a significand with one bit too many.
  rcases hmost.lt_or_eq with hlt | rfl
  · rw [shiftToTargetExponent_of_lt hlt hleast]
    dsimp only
    split
    · next hzero => exact ⟨rfl, by rw [← hnearest, hzero]; simp⟩
    · refine ⟨rfl, hlt, hleast, ?_, hnearest⟩
      by_cases hplace : lastPlace q = -1074
      · exact Or.inr hplace
      · have hnormal := two_pow_le_nearestInt hpos hplace
        rw [← hrounded] at hnormal
        exact Or.inl (by exact_mod_cast hnormal)
  · rw [shiftToTargetExponent_carry hleast]
    refine ⟨rfl, by norm_num, by omega, Or.inl le_rfl, ?_⟩
    rw [← hnearest, zpow_add₀ two_ne_zero]
    push_cast
    ring

/-- Rounding an exact significand with any last place. -/
theorem rounds_round {sign : Sign} {m : ℕ} {e : ℤ} (hm : 0 < m) :
    Rounds sign (m * 2 ^ e) (UnpackedFloat.round Format.binary64 sign m e) := by
  have he : (0 : ℚ) < 2 ^ e := zpow_pos two_pos e
  have hpos : (0 : ℚ) < m * 2 ^ e := mul_pos (by exact_mod_cast hm) he
  simp only [UnpackedFloat.round, targetExponent_totalExponent, decreaseExponent]
  generalize hk : (e - max ((m.log2 : ℤ) + e - 52) (-1074)).toNat = k
  have hexact : (m : ℚ) * 2 ^ e / 2 ^ (e - k) = ((m <<< k : ℕ) : ℚ) := by
    rw [zpow_sub₀ two_ne_zero, zpow_natCast, Nat.shiftLeft_eq]
    push_cast
    field_simp
  refine rounds_roundWithAccuracy hpos ?_ ?_
  · rw [hexact]
    rfl
  · rw [Nat.shiftLeft_eq]
    by_cases hle : e - k ≤ -1074
    · exact Or.inr hle
    · left
      calc 2 ^ 52 ≤ 2 ^ (m.log2 + k) := Nat.pow_le_pow_right two_pos (by omega)
        _ = 2 ^ m.log2 * 2 ^ k := pow_add 2 _ _
        _ ≤ m * 2 ^ k := Nat.mul_le_mul_right _ (Nat.log2_self_le hm.ne')

/-- The significand and the last place of a finite binary64 number other than zero. -/
structure Canonical (m : ℕ) (e : ℤ) : Prop where
  lt : m < 2 ^ 53
  least_le : -1074 ≤ e
  le_most : e ≤ 971
  normal : 2 ^ 52 ≤ m ∨ e = -1074

/-- The product of two canonical numbers keeps all its bits until it is rounded. -/
theorem rounds_mul {sign : Sign} {m₁ m₂ : ℕ} {e₁ e₂ : ℤ} (h₁ : Canonical m₁ e₁)
    (h₂ : Canonical m₂ e₂) (hm₁ : 0 < m₁) (hm₂ : 0 < m₂) :
    Rounds sign (m₁ * 2 ^ e₁ * (m₂ * 2 ^ e₂))
      (roundWithAccuracy Format.binary64 sign (m₁ * m₂) (e₁ + e₂) .exact) := by
  have hpos₁ : (0 : ℚ) < m₁ * 2 ^ e₁ := mul_pos (by exact_mod_cast hm₁) (zpow_pos two_pos _)
  have hpos₂ : (0 : ℚ) < m₂ * 2 ^ e₂ := mul_pos (by exact_mod_cast hm₂) (zpow_pos two_pos _)
  refine rounds_roundWithAccuracy (mul_pos hpos₁ hpos₂) ?_ ?_
  · have hexact : (m₁ : ℚ) * 2 ^ e₁ * (m₂ * 2 ^ e₂) / 2 ^ (e₁ + e₂) = ((m₁ * m₂ : ℕ) : ℚ) := by
      rw [zpow_add₀ two_ne_zero]
      push_cast
      field_simp
    rw [hexact]
    rfl
  · rcases h₁.normal with hnormal | rfl
    · exact Or.inl (hnormal.trans (Nat.le_mul_of_pos_right _ hm₂))
    · rcases h₂.normal with hnormal | rfl
      · exact Or.inl (hnormal.trans (Nat.le_mul_of_pos_left _ hm₁))
      · exact Or.inr (by omega)

/-- The two bits of a quotient compare its remainder with half the divisor. -/
theorem describes_quotient (n : ℕ) {d : ℕ} (hd : 0 < d) :
    Describes (.ofMantissaAndAccuracy (n / d) (accuracyOfFraction (n % d) d)) (n / d) := by
  have hd' : (0 : ℚ) < d := by exact_mod_cast hd
  have hsplit : (n : ℚ) / d = (n / d : ℕ) + ((n % d : ℕ) : ℚ) / d := by
    rw [eq_comm, ← eq_sub_iff_add_eq', div_eq_iff hd'.ne', sub_mul, div_mul_cancel₀ _ hd'.ne',
      eq_sub_iff_add_eq]
    exact_mod_cast Nat.mod_add_div' n d
  have hlt : n % d < d := Nat.mod_lt n hd
  rw [hsplit]
  generalize n / d = whole
  generalize n % d = rest at hlt ⊢
  unfold accuracyOfFraction
  split
  · next hzero => simp [hzero, Describes, ExtendedMantissa.ofMantissaAndAccuracy]
  · next hzero =>
    have hrest : (0 : ℚ) < rest / d := div_pos (by exact_mod_cast Nat.pos_of_ne_zero hzero) hd'
    rcases lt_trichotomy (2 * rest) d with hcmp | hcmp | hcmp
    · have hhalf : (rest : ℚ) / d < 1 / 2 := by
        rw [div_lt_div_iff₀ hd' two_pos]
        exact_mod_cast (by omega : rest * 2 < 1 * d)
      rw [Nat.compare_eq_lt.mpr hcmp]
      constructor <;> dsimp only [ExtendedMantissa.ofMantissaAndAccuracy] <;> linarith
    · have hhalf : (rest : ℚ) / d = 1 / 2 := by
        rw [div_eq_div_iff hd'.ne' two_ne_zero]
        exact_mod_cast (by omega : rest * 2 = 1 * d)
      rw [Nat.compare_eq_eq.mpr hcmp, hhalf]
      rfl
    · have hhalf : 1 / 2 < (rest : ℚ) / d := by
        rw [div_lt_div_iff₀ two_pos hd']
        exact_mod_cast (by omega : 1 * d < rest * 2)
      have hone : (rest : ℚ) / d < 1 := (div_lt_one hd').mpr (by exact_mod_cast hlt)
      rw [Nat.compare_eq_gt.mpr hcmp]
      constructor <;> dsimp only [ExtendedMantissa.ofMantissaAndAccuracy] <;> linarith

/-- The quotient of two numbers has enough bits before it is rounded. -/
theorem rounds_div {sign : Sign} {m₁ m₂ : ℕ} {e₁ e₂ : ℤ} (hm₁ : 0 < m₁) (hm₂ : 0 < m₂) :
    Rounds sign (m₁ * 2 ^ e₁ / (m₂ * 2 ^ e₂))
      (roundWithAccuracy Format.binary64 sign (divCore Format.binary64 m₁ e₁ m₂ e₂).1
        (divCore Format.binary64 m₁ e₁ m₂ e₂).2.1 (divCore Format.binary64 m₁ e₁ m₂ e₂).2.2) := by
  have hpos₁ : (0 : ℚ) < m₁ * 2 ^ e₁ := mul_pos (by exact_mod_cast hm₁) (zpow_pos two_pos _)
  have hpos₂ : (0 : ℚ) < m₂ * 2 ^ e₂ := mul_pos (by exact_mod_cast hm₂) (zpow_pos two_pos _)
  have htarget : Format.binary64.targetExponent (totalExponent m₁ e₁ - totalExponent m₂ e₂) =
      max (m₁.log2 + e₁ - (m₂.log2 + e₂) - 53) (-1074) := by
    simp only [Format.targetExponent, totalExponent, Format.mantissaBits, Format.minExponent]
    norm_num
    omega
  simp only [divCore, htarget]
  generalize ht : min (e₁ - e₂)
    (max ((m₁.log2 : ℤ) + e₁ - (m₂.log2 + e₂) - 53) (-1074)) = target
  generalize hk : (e₁ - e₂ - target).toNat = k
  have hscaled : (m₁ : ℚ) * 2 ^ e₁ / (m₂ * 2 ^ e₂) / 2 ^ target = ((m₁ <<< k : ℕ) : ℚ) / m₂ := by
    have hexp : e₁ = k + (e₂ + target) := by omega
    rw [Nat.shiftLeft_eq, hexp, zpow_add₀ two_ne_zero, zpow_add₀ two_ne_zero, zpow_natCast]
    push_cast
    field_simp
  refine rounds_roundWithAccuracy (div_pos hpos₁ hpos₂) ?_ ?_
  · rw [hscaled]
    exact describes_quotient _ hm₂
  · by_cases hle : target ≤ -1074
    · exact Or.inr hle
    · left
      rw [Nat.le_div_iff_mul_le hm₂, Nat.shiftLeft_eq]
      calc 2 ^ 52 * m₂ ≤ 2 ^ 52 * 2 ^ (m₂.log2 + 1) :=
            Nat.mul_le_mul_left _ Nat.lt_log2_self.le
        _ = 2 ^ (52 + (m₂.log2 + 1)) := (pow_add 2 _ _).symm
        _ ≤ 2 ^ (m₁.log2 + k) := Nat.pow_le_pow_right two_pos (by omega)
        _ = 2 ^ m₁.log2 * 2 ^ k := pow_add 2 _ _
        _ ≤ m₁ * 2 ^ k := Nat.mul_le_mul_right _ (Nat.log2_self_le hm₁.ne')

end FlowControl.Binary64
