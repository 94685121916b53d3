import FlowControl.Proofs.Binary64.Arithmetic

/-!
# Numbers that differ by roundings

Rounding changes a normal number by no more than a `2 ^ -53` of itself. So a number that is
computed in a few operations lies within as many roundings of the exact result, and this
distance is kept by all that is done to both alike. Powers of two are not rounded at all: a
normal number times a power of two is rounded like the number.
-/

namespace FlowControl.Binary64

/-- The share of a normal number by which rounding changes it at most. -/
def roundoff : ℚ := 2 ^ (-53 : ℤ)

/-- The share by which rounding changes a number is positive. -/
theorem roundoff_pos : 0 < roundoff := zpow_pos two_pos _

/-- The factor of a rounding is no less than one. -/
theorem one_le_one_add_roundoff : 1 ≤ 1 + roundoff := le_add_of_nonneg_right roundoff_pos.le

/-- A rational is rounded by half a unit at most. -/
theorem abs_nearestInt_sub_le (q : ℚ) : |(nearestInt q : ℚ) - q| ≤ 1 / 2 := by
  have hsplit := Int.floor_add_fract q
  have hnonneg := Int.fract_nonneg q
  have hlt := Int.fract_lt_one q
  have htie : ⌊q⌋ % 2 = 0 ∨ ⌊q⌋ % 2 = 1 := Int.emod_two_eq_zero_or_one _
  unfold nearestInt
  rw [abs_le]
  split_ifs with hbelow habove
  · constructor <;> linarith
  · push_cast
    constructor <;> linarith
  · rcases htie with hzero | hone
    · rw [hzero]
      push_cast
      constructor <;> linarith
    · rw [hone]
      push_cast
      constructor <;> linarith

/-- A normal number is at least `2 ^ 52` of its last places. -/
theorem two_zpow_lastPlace_le_of_normal {q : ℚ} (h : 2 ^ (-1022 : ℤ) ≤ q) :
    2 ^ (lastPlace q + 52) ≤ q := by
  by_cases hplace : lastPlace q = -1074
  · rwa [hplace]
  · exact two_zpow_lastPlace_le ((zpow_pos two_pos _).trans_le h) hplace

/-- Each of two numbers is at most the other one times a factor. -/
def WithinFactor (f p q : ℚ) : Prop := p ≤ q * f ∧ q ≤ p * f

namespace WithinFactor

variable {d f g p q r s : ℚ}

/-- Factors multiply along a chain of numbers. -/
theorem trans (h : WithinFactor f p q) (h' : WithinFactor g q r) (hf : 0 ≤ f) (hg : 0 ≤ g) :
    WithinFactor (f * g) p r := by
  constructor
  · calc p ≤ q * f := h.1
      _ ≤ r * g * f := mul_le_mul_of_nonneg_right h'.1 hf
      _ = r * (f * g) := by ring
  · calc r ≤ q * g := h'.2
      _ ≤ p * f * g := mul_le_mul_of_nonneg_right h.2 hg
      _ = p * (f * g) := by ring

/-- Factors multiply in a product. -/
theorem mul (h : WithinFactor f p q) (h' : WithinFactor g r s) (hf : 0 ≤ f) (hp : 0 ≤ p)
    (hq : 0 ≤ q) (hr : 0 ≤ r) (hs : 0 ≤ s) : WithinFactor (f * g) (p * r) (q * s) := by
  constructor
  · calc p * r ≤ q * f * (s * g) := mul_le_mul h.1 h'.1 hr (mul_nonneg hq hf)
      _ = q * s * (f * g) := by ring
  · calc q * s ≤ p * f * (r * g) := mul_le_mul h.2 h'.2 hs (mul_nonneg hp hf)
      _ = p * r * (f * g) := by ring

/-- What is within a factor is within a larger one. -/
theorem mono (h : WithinFactor f p q) (hfg : f ≤ g) (hp : 0 ≤ p) (hq : 0 ≤ q) :
    WithinFactor g p q :=
  ⟨h.1.trans (mul_le_mul_of_nonneg_left hfg hq), h.2.trans (mul_le_mul_of_nonneg_left hfg hp)⟩

/-- Both numbers may be divided by a third. -/
theorem div_right (h : WithinFactor f p q) (hs : 0 < s) : WithinFactor f (p / s) (q / s) := by
  constructor
  · rw [div_mul_eq_mul_div]
    exact div_le_div_of_nonneg_right h.1 hs.le
  · rw [div_mul_eq_mul_div]
    exact div_le_div_of_nonneg_right h.2 hs.le

/-- A number may be divided by either of two numbers. -/
theorem div_left (h : WithinFactor f p q) (hp : 0 < p) (hq : 0 < q) (hr : 0 ≤ r) :
    WithinFactor f (r / p) (r / q) := by
  constructor
  · rw [div_mul_eq_mul_div, div_le_div_iff₀ hp hq]
    calc r * q ≤ r * (p * f) := mul_le_mul_of_nonneg_left h.2 hr
      _ = r * f * p := by ring
  · rw [div_mul_eq_mul_div, div_le_div_iff₀ hq hp]
    calc r * p ≤ r * (q * f) := mul_le_mul_of_nonneg_left h.1 hr
      _ = r * f * q := by ring

/-- A difference that is a small part of both numbers. -/
theorem of_abs_le (h : |p - q| ≤ d) (hp : d ≤ p * f) (hq : d ≤ q * f) :
    WithinFactor (1 + f) p q := by
  obtain ⟨hmore, hless⟩ := abs_le.mp h
  constructor <;> linarith

end WithinFactor

/-- Each of two numbers is at most the other one after so many roundings. -/
def Within (n : ℕ) (p q : ℚ) : Prop :=
  p ≤ q * (1 + roundoff) ^ n ∧ q ≤ p * (1 + roundoff) ^ n

/-- A number is rounded by half of its last place at most. -/
theorem abs_nearest_sub_le (q : ℚ) : |nearest q - q| ≤ roundoff * 2 ^ (lastPlace q + 52) := by
  have hpos : (0 : ℚ) < 2 ^ lastPlace q := zpow_pos two_pos _
  have hhalf : 1 / 2 * (2 : ℚ) ^ lastPlace q = roundoff * 2 ^ (lastPlace q + 52) := by
    rw [roundoff, ← zpow_add₀ two_ne_zero, show (1 / 2 : ℚ) = 2 ^ (-1 : ℤ) by norm_num,
      ← zpow_add₀ two_ne_zero]
    congr 1
    ring
  have hscaled : nearest q - q =
      ((nearestInt (q / 2 ^ lastPlace q) : ℚ) - q / 2 ^ lastPlace q) * 2 ^ lastPlace q := by
    rw [nearest, sub_mul, div_mul_cancel₀ _ hpos.ne']
  rw [hscaled, abs_mul, abs_of_pos hpos, ← hhalf]
  exact mul_le_mul_of_nonneg_right (abs_nearestInt_sub_le _) hpos.le

/-- A normal number lies within one rounding of what it is rounded to. -/
theorem within_nearest {q : ℚ} (h : 2 ^ (-1022 : ℤ) ≤ q) : Within 1 (nearest q) q := by
  have hplace := neg_1074_le_lastPlace q
  have hlow := two_zpow_lastPlace_le_of_normal h
  have hlow' : 2 ^ (lastPlace q + 52) ≤ nearest q :=
    (Representable.two_zpow (by omega)).le_nearest ((zpow_pos two_pos _).le.trans h) hlow
  have hnear := mul_le_mul_of_nonneg_left hlow' roundoff_pos.le
  have hexact := mul_le_mul_of_nonneg_left hlow roundoff_pos.le
  obtain ⟨hmore, hless⟩ := abs_le.mp (abs_nearest_sub_le q)
  rw [Within, pow_one]
  constructor <;> linarith

namespace Within

variable {m n : ℕ} {p q r s : ℚ}

/-- Zero is within any number of roundings of zero. -/
theorem zero (n : ℕ) : Within n 0 0 := by simp [Within]

/-- A number is within any number of roundings of itself. -/
theorem refl (n : ℕ) (hp : 0 ≤ p) : Within n p p :=
  have h : p ≤ p * (1 + roundoff) ^ n :=
    le_mul_of_one_le_right hp (one_le_pow₀ one_le_one_add_roundoff)
  ⟨h, h⟩

/-- The factor of several roundings is not negative. -/
theorem one_add_pow_nonneg (n : ℕ) : (0 : ℚ) ≤ (1 + roundoff) ^ n :=
  pow_nonneg (zero_le_one.trans one_le_one_add_roundoff) n

/-- Roundings add up. -/
theorem trans (h : Within m p q) (h' : Within n q r) : Within (m + n) p r := by
  rw [Within, pow_add]
  exact WithinFactor.trans h h' (one_add_pow_nonneg m) (one_add_pow_nonneg n)

/-- The roundings of two factors add up in their product. -/
theorem mul (h : Within m p q) (h' : Within n r s) (hp : 0 ≤ p) (hq : 0 ≤ q) (hr : 0 ≤ r)
    (hs : 0 ≤ s) : Within (m + n) (p * r) (q * s) := by
  rw [Within, pow_add]
  exact WithinFactor.mul h h' (one_add_pow_nonneg m) hp hq hr hs

/-- A number that is within roundings of a positive one is positive. -/
theorem pos (h : Within n p q) (hq : 0 < q) : 0 < p := by
  have hpow : (0 : ℚ) < (1 + roundoff) ^ n :=
    pow_pos (zero_lt_one.trans_le one_le_one_add_roundoff) n
  exact (mul_pos_iff_of_pos_right hpow).mp (hq.trans_le h.2)

/-- Without roundings the numbers are equal. -/
theorem eq_of_zero (h : Within 0 p q) : p = q := by
  obtain ⟨hmore, hless⟩ := h
  rw [pow_zero, mul_one] at hmore hless
  exact le_antisymm hmore hless

/-- Both numbers may be divided by a third. -/
theorem div_right (h : Within n p q) (hs : 0 < s) : Within n (p / s) (q / s) :=
  WithinFactor.div_right h hs

/-- A number may be divided by either of two numbers. -/
theorem div_left (h : Within n p q) (hp : 0 < p) (hq : 0 < q) (hr : 0 ≤ r) :
    Within n (r / p) (r / q) :=
  WithinFactor.div_left h hp hq hr

end Within

/-- A normal number times a power of two is rounded like the number. -/
theorem nearest_mul_two_zpow {q : ℚ} {k : ℤ} (h : 2 ^ (-1022 : ℤ) ≤ q)
    (h' : 2 ^ (-1022 : ℤ) ≤ q * 2 ^ k) : nearest (q * 2 ^ k) = nearest q * 2 ^ k := by
  have hk : (0 : ℚ) < 2 ^ k := zpow_pos two_pos k
  have hplace : lastPlace (q * 2 ^ k) = lastPlace q + k := by
    have hlow := two_zpow_lastPlace_le_of_normal h
    have hlow' := two_zpow_lastPlace_le_of_normal h'
    have hhigh := lt_two_zpow_lastPlace q
    have hhigh' := lt_two_zpow_lastPlace (q * 2 ^ k)
    have hbelow : (2 : ℚ) ^ (lastPlace q + 52 + k) < 2 ^ (lastPlace (q * 2 ^ k) + 53) := by
      rw [zpow_add₀ two_ne_zero _ k]
      exact (mul_le_mul_of_nonneg_right hlow hk.le).trans_lt hhigh'
    have habove : (2 : ℚ) ^ (lastPlace (q * 2 ^ k) + 52) < 2 ^ (lastPlace q + 53 + k) := by
      rw [zpow_add₀ two_ne_zero _ k]
      exact hlow'.trans_lt (mul_lt_mul_of_pos_right hhigh hk)
    rw [zpow_lt_zpow_iff_right₀ one_lt_two] at hbelow habove
    omega
  rw [nearest, hplace, nearest, zpow_add₀ two_ne_zero, mul_div_mul_right _ _ hk.ne', mul_assoc]

end FlowControl.Binary64
