import FlowControl.Decimal.Shortest
import FlowControl.Proofs.Binary64.Decimals

/-!
# Decimals that stand for a magnitude

In units of its last place a magnitude is a whole number, and what is no farther from it than half
a unit is rounded to it. Below a power of two the units are half as long, so there it is half of
such a unit. The search for the shortest decimal takes only decimals from this interval, and where
it finds none it writes the magnitude in full, so what is found is rounded to the magnitude.
-/

namespace FlowControl

namespace Binary64

variable {m : ℕ} {e n : ℤ} {q t : ℚ}

/-- A rational is rounded to the integer from which it is half a unit away at most, and less if that
integer is odd. -/
theorem nearestInt_eq (hlow : n - 1 / 2 ≤ t) (hhigh : t ≤ n + 1 / 2)
    (hodd : n % 2 = 1 → n - 1 / 2 < t ∧ t < n + 1 / 2) : nearestInt t = n := by
  have hparity := Int.emod_two_eq_zero_or_one n
  unfold nearestInt
  by_cases hbelow : t < n
  · have hfloor : ⌊t⌋ = n - 1 := by
      rw [Int.floor_eq_iff]
      push_cast
      constructor <;> linarith
    have hfract : Int.fract t = t - (n - 1) := by
      rw [Int.fract, hfloor]
      push_cast
      rfl
    rw [hfract, hfloor, if_neg (by linarith)]
    split_ifs with hmore
    · omega
    · have heven : ¬ n % 2 = 1 := fun h => hmore (by linarith [(hodd h).1])
      omega
  · have hfloor : ⌊t⌋ = n := by
      rw [Int.floor_eq_iff]
      constructor <;> linarith
    have hfract : Int.fract t = t - n := by rw [Int.fract, hfloor]
    rw [hfract, hfloor]
    split_ifs with hless hmore
    · rfl
    · linarith
    · have heven : ¬ n % 2 = 1 := fun h => hless (by linarith [(hodd h).2])
      omega

/-- The last place of a number is the one in which it has 53 digits, or the least one. -/
theorem lastPlace_eq_of_scaled (hpos : 0 < q) (he : -1074 ≤ e)
    (hlow : 2 ^ 52 ≤ q / 2 ^ e ∨ e = -1074) (hhigh : q / 2 ^ e < 2 ^ 53) : lastPlace q = e := by
  have hunit : (0 : ℚ) < 2 ^ e := zpow_pos two_pos e
  have hsplit (k : ℤ) : (2 : ℚ) ^ (k + e) = 2 ^ k * 2 ^ e := zpow_add₀ two_ne_zero k e
  have hbelow : q < 2 ^ (53 + e) := by
    rw [hsplit]
    exact (div_lt_iff₀ hunit).mp hhigh
  by_cases hnormal : 2 ^ 52 ≤ q / 2 ^ e
  · have habove : 2 ^ (52 + e) ≤ q := by
      rw [hsplit]
      exact (le_div_iff₀ hunit).mp hnormal
    rw [lastPlace_eq habove (by rwa [add_right_comm])]
    omega
  · obtain rfl := hlow.resolve_left hnormal
    exact lastPlace_eq_of_lt hpos hbelow

/-- What a number is rounded to, by its last place and its whole number of units. -/
theorem nearest_eq_of_scaled (hpos : 0 < q) (he : -1074 ≤ e)
    (hlow : 2 ^ 52 ≤ q / 2 ^ e ∨ e = -1074) (hhigh : q / 2 ^ e < 2 ^ 53)
    (hint : nearestInt (q / 2 ^ e) = n) : nearest q = n * 2 ^ e := by
  rw [nearest, lastPlace_eq_of_scaled hpos he hlow hhigh, hint]

/-- What lies a quarter of a unit below a power of two, or less than that, is rounded to it. -/
theorem nearest_eq_of_below_power (he : -1074 < e) (hlow : 2 ^ 52 - 1 / 4 ≤ q / 2 ^ e)
    (hhigh : q / 2 ^ e < 2 ^ 52) : nearest q = 2 ^ 52 * 2 ^ e := by
  have hunit : (0 : ℚ) < 2 ^ e := zpow_pos two_pos e
  have hpos : 0 < q := (div_pos_iff_of_pos_right hunit).mp (lt_of_lt_of_le (by norm_num) hlow)
  have hhalf : (2 : ℚ) ^ e = 2 * 2 ^ (e - 1) := by
    rw [← zpow_one_add₀ two_ne_zero, add_sub_cancel]
  have hdouble : q / 2 ^ (e - 1) = 2 * (q / 2 ^ e) := by
    rw [hhalf]
    field_simp
  have hint : nearestInt (q / 2 ^ (e - 1)) = 2 ^ 53 := by
    rw [hdouble]
    refine nearestInt_eq ?_ ?_ (by norm_num)
    · push_cast
      linarith
    · push_cast
      linarith
  have hnormal : 2 ^ 52 ≤ q / 2 ^ (e - 1) := by linarith
  rw [nearest_eq_of_scaled hpos (by omega) (Or.inl hnormal) (by linarith) hint, hhalf]
  push_cast
  ring

end Binary64

open Binary64

namespace Magnitude

variable {m : Magnitude} {d : Decimal} {tie : Tie}

/-- The rational that a magnitude is. -/
def size (m : Magnitude) : ℚ := m.significand * 2 ^ m.exponent

/-- The denominator of a magnitude is positive. -/
theorem denominator_pos (m : Magnitude) : 0 < m.denominator := Nat.pow_pos two_pos

/-- A magnitude is the fraction of its numerator and denominator. -/
theorem numerator_div_denominator (m : Magnitude) :
    (m.numerator : ℚ) / m.denominator = m.size := by
  have hsplit : m.exponent = m.exponent.toNat - (-m.exponent).toNat := by omega
  have hpower : (2 : ℚ) ^ m.exponent = 2 ^ m.exponent.toNat / 2 ^ (-m.exponent).toNat := by
    conv_lhs => rw [hsplit, zpow_sub₀ two_ne_zero, zpow_natCast, zpow_natCast]
  simp only [size, numerator, denominator, Nat.pow_eq, Nat.cast_mul, Nat.cast_pow, Nat.cast_ofNat]
  rw [hpower, mul_div_assoc]

/-- The magnitude of a binary64 number. -/
structure IsBinary64 (m : Magnitude) : Prop where
  pos : 0 < m.significand
  canonical : Canonical m.significand m.exponent

/-- A decimal in units of the last place of a magnitude. -/
def units (m : Magnitude) (d : Decimal) : ℚ := d.size / 2 ^ m.exponent

/-- A power times what the negative part of its exponent takes away is the power of the positive
part. -/
private theorem zpow_mul_pow_toNat {a : ℚ} (ha : a ≠ 0) (k : ℤ) :
    a ^ k * a ^ (-k).toNat = a ^ k.toNat := by
  rw [← zpow_natCast, ← zpow_natCast, ← zpow_add₀ ha]
  congr 1
  omega

/-- The interval in which a decimal stands for a magnitude, in quarters of the last place. Its ends
belong to it if the significand is even. -/
theorem contains_iff : m.contains d = true ↔
    if m.significand % 2 = 0 then (m.lowest : ℚ) ≤ 4 * m.units d ∧ 4 * m.units d ≤ m.highest
    else (m.lowest : ℚ) < 4 * m.units d ∧ 4 * m.units d < m.highest := by
  unfold contains
  extract_lets quarters unit
  have hunit : (0 : ℚ) < unit := by
    exact_mod_cast Nat.mul_pos (Nat.pow_pos (by norm_num)) (Nat.pow_pos (by norm_num))
  have hquarters : (quarters : ℚ) = 4 * m.units d * unit := by
    have hten := zpow_mul_pow_toNat (a := 10) (by norm_num) d.exponent
    have htwo := zpow_mul_pow_toNat (a := 2) (by norm_num) m.exponent
    have hdenominator : m.denominator = 2 ^ (-m.exponent).toNat := rfl
    simp only [quarters, unit, Nat.pow_eq, hdenominator]
    push_cast
    rw [← hten, ← htwo, units, Decimal.size]
    field_simp
  have hle (n : ℕ) : n * unit ≤ quarters ↔ (n : ℚ) ≤ 4 * m.units d := by
    rw [← Nat.cast_le (α := ℚ), hquarters, Nat.cast_mul n unit, mul_le_mul_iff_left₀ hunit]
  have hge (n : ℕ) : quarters ≤ n * unit ↔ 4 * m.units d ≤ n := by
    rw [← Nat.cast_le (α := ℚ), hquarters, Nat.cast_mul n unit, mul_le_mul_iff_left₀ hunit]
  split_ifs
  · rw [Bool.and_eq_true, decide_eq_true_iff, decide_eq_true_iff, hle, hge]
  · rw [Bool.and_eq_true, decide_eq_true_iff, decide_eq_true_iff, ← not_le, ← not_le, hle, hge,
      not_le, not_le]

/-- A decimal that stands for a magnitude is no farther from it than half of its last place, and
less if the significand is odd. -/
theorem le_of_contains (hm : 0 < m.significand) (h : m.contains d = true) :
    (m.significand : ℚ) - 1 / 2 ≤ m.units d ∧ m.units d ≤ m.significand + 1 / 2 ∧
      (m.significand % 2 = 1 →
        (m.significand : ℚ) - 1 / 2 < m.units d ∧ m.units d < m.significand + 1 / 2) := by
  have hlowest : (4 * m.significand : ℚ) ≤ m.lowest + 2 := by
    have hnat : 4 * m.significand ≤ m.lowest + 2 := by
      unfold lowest
      split_ifs <;> omega
    exact_mod_cast hnat
  have hhighest : (m.highest : ℚ) = 4 * m.significand + 2 := by
    rw [highest]
    push_cast
    rfl
  rw [contains_iff] at h
  split_ifs at h with heven
  · exact ⟨by linarith [h.1], by linarith [h.2], by omega⟩
  · exact ⟨by linarith [h.1], by linarith [h.2],
      fun _ => ⟨by linarith [h.1], by linarith [h.2]⟩⟩

/-- A decimal that stands for a magnitude is rounded to it. The units are those of the magnitude
unless the decimal lies below a power of two. -/
theorem IsBinary64.rounded_of_contains (hm : m.IsBinary64) (h : m.contains d = true) :
    rounded d.size = m.size := by
  obtain ⟨hpos, hcanonical⟩ := hm
  obtain ⟨hlow, hhigh, hodd⟩ := le_of_contains hpos h
  have hunit : (0 : ℚ) < 2 ^ m.exponent := zpow_pos two_pos _
  have hone : (1 : ℚ) ≤ m.significand := by exact_mod_cast hpos
  have hmost : (m.significand : ℚ) + 1 ≤ 2 ^ 53 := by exact_mod_cast hcanonical.lt
  have hsize : 0 < d.size := (div_pos_iff_of_pos_right hunit).mp (by rw [← units]; linarith)
  have hnearest : nearest d.size = m.size := by
    by_cases hpower : m.units d < 2 ^ 52 ∧ m.exponent ≠ -1074
    · obtain ⟨hbelow, hplace⟩ := hpower
      have hnormal := hcanonical.normal.resolve_right hplace
      have hpower : m.significand = 2 ^ 52 := by
        have hlt : (m.significand : ℚ) < 2 ^ 52 + 1 := by linarith
        have hlt' : m.significand < 2 ^ 52 + 1 := by exact_mod_cast hlt
        omega
      have hlowest : (m.lowest : ℚ) ≤ 4 * m.units d := by
        rw [contains_iff, if_pos (by omega)] at h
        exact h.1
      have hquarter : m.lowest = 4 * 2 ^ 52 - 1 := by
        rw [lowest, if_pos ⟨hpower, hplace⟩, hpower]
      have hle : (2 : ℚ) ^ 52 - 1 / 4 ≤ m.units d := by
        rw [hquarter] at hlowest
        norm_num at hlowest ⊢
        linarith
      rw [nearest_eq_of_below_power (hcanonical.least_le.lt_of_ne' hplace) hle hbelow, size,
        hpower]
      norm_num
    · have hint : nearestInt (m.units d) = (m.significand : ℤ) :=
        nearestInt_eq (by exact_mod_cast hlow) (by exact_mod_cast hhigh) (by exact_mod_cast hodd)
      rw [size]
      refine nearest_eq_of_scaled (e := m.exponent) hsize hcanonical.least_le ?_ ?_ hint
      · rw [not_and_or, not_lt, not_not] at hpower
        exact hpower
      · exact lt_of_le_of_lt hhigh (by linarith)
  exact (if_pos (hnearest ▸ hcanonical.lt_two_pow)).trans (congrArg _ hnearest)

/-- A magnitude that is written in full keeps its size. -/
theorem size_exactDecimal (m : Magnitude) : m.exactDecimal.size = m.size := by
  unfold exactDecimal
  split_ifs with hwhole
  · have hpower : (2 : ℚ) ^ m.exponent = 2 ^ m.exponent.toNat := by
      rw [← zpow_natCast, Int.toNat_of_nonneg hwhole]
    rw [Decimal.size, size, zpow_zero, mul_one, hpower]
    push_cast [Nat.pow_eq]
    rfl
  · have hexponent : (-m.exponent).toNat = -m.exponent := Int.toNat_of_nonneg (by omega)
    have hfive : (5 : ℚ) ^ (-m.exponent).toNat = 5 ^ (-m.exponent) := by
      rw [← zpow_natCast, hexponent]
    have hten : (10 : ℚ) ^ m.exponent = 2 ^ m.exponent * 5 ^ m.exponent := by
      rw [← mul_zpow]
      norm_num
    rw [Decimal.size, size]
    push_cast [Nat.pow_eq]
    rw [hfive, hten, zpow_neg]
    field_simp

/-- A magnitude of a number is not rounded. -/
theorem IsBinary64.rounded_size (hm : m.IsBinary64) : rounded m.size = m.size :=
  rounded_eq (Representable.of_mul hm.canonical.lt.le hm.canonical.least_le)
    hm.canonical.lt_two_pow

/-- What is found on a grid stands for the magnitude. -/
theorem contains_of_nearestOnGrid? {k : ℤ} (h : m.nearestOnGrid? tie k = some d) :
    m.contains d = true := by
  unfold nearestOnGrid? at h
  dsimp only at h
  split at h
  · split_ifs at h <;> obtain rfl := Option.some.inj h <;> assumption
  · obtain rfl := Option.some.inj h
    assumption
  · obtain rfl := Option.some.inj h
    assumption
  · exact absurd h (Option.some_ne_none d).symm

/-- Whatever the number of grids that are tried, what is found is rounded to the magnitude. -/
theorem IsBinary64.rounded_searchGrids (hm : m.IsBinary64) (tie : Tie) (fuel : ℕ) (k : ℤ) :
    rounded (m.searchGrids tie fuel k).size = m.size := by
  induction fuel generalizing k with
  | zero => rw [searchGrids, size_exactDecimal, hm.rounded_size]
  | succ fuel ih =>
    rw [searchGrids]
    cases hgrid : m.nearestOnGrid? tie k with
    | none => exact ih (k - 1)
    | some d => exact hm.rounded_of_contains (contains_of_nearestOnGrid? hgrid)

/-- **The shortest decimal of a magnitude reads back as it.** -/
theorem IsBinary64.rounded_shortest (hm : m.IsBinary64) (tie : Tie) :
    rounded (m.shortest tie).size = m.size :=
  hm.rounded_searchGrids tie _ _

end Magnitude

end FlowControl
