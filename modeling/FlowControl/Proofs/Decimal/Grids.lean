import FlowControl.Proofs.Decimal.Shortest

/-!
# Twenty grids suffice

A grid that is no coarser than half of the last place has a point that stands for the magnitude. The
search starts from a grid that is chosen by an approximation of the logarithm of two, and among the
twenty grids that it tries there is one that is fine enough. So the shortest decimal of a magnitude
has a coefficient that fits a word, and no digit below the last one of the least magnitude.
-/

namespace FlowControl

open Binary64

section Logarithm

variable {x y : ℚ} {p q : ℕ} {b n : ℤ}

/-- If one power is at most another, then so it is with both exponents multiplied by what is not
negative. -/
private theorem zpow_mul_le (hx : 0 < x) (h : x ^ p ≤ y ^ q) (hn : 0 ≤ n) :
    x ^ (p * n) ≤ y ^ (q * n) := by
  rw [zpow_mul, zpow_mul, zpow_natCast, zpow_natCast]
  exact zpow_le_zpow_left₀ hn (pow_pos hx p).le h

/-- With both exponents multiplied by what is not positive, two powers compare the other way
around. -/
private theorem zpow_mul_le_of_nonpos (hx : 0 < x) (hy : 0 < y) (h : x ^ p ≤ y ^ q) (hn : n ≤ 0) :
    y ^ (q * n) ≤ x ^ (p * n) := by
  have hle := zpow_mul_le hx h (neg_nonneg.mpr hn)
  rw [mul_neg, mul_neg, zpow_neg, zpow_neg] at hle
  exact (inv_le_inv₀ (zpow_pos hx _) (zpow_pos hy _)).mp hle

/-- The slope `30103 / 100000` is above the logarithm of two, by less than a bit in the whole
range. -/
theorem ten_zpow_le_two_zpow (hlow : -1076 ≤ b) (hhigh : b ≤ 1024)
    (h : 100000 * n ≤ 30103 * b) : (10 : ℚ) ^ n ≤ 2 ^ (b + 1) := by
  have hten : (0 : ℚ) ≤ 10 ^ n := (zpow_pos (by norm_num) n).le
  have htwo : (0 : ℚ) ≤ 2 ^ (b + 1) := (zpow_pos two_pos _).le
  rcases le_total 0 n with hn | hn
  · rw [← pow_le_pow_iff_left₀ hten htwo (n := 59) (by norm_num), ← zpow_natCast, ← zpow_natCast,
      ← zpow_mul, ← zpow_mul, mul_comm n, mul_comm (b + 1)]
    calc (10 : ℚ) ^ ((59 : ℕ) * n) ≤ 2 ^ ((196 : ℕ) * n) :=
          zpow_mul_le (by norm_num) (by norm_num) hn
      _ ≤ 2 ^ ((59 : ℕ) * (b + 1)) := zpow_le_zpow_right₀ one_le_two (by push_cast; omega)
  · rw [← pow_le_pow_iff_left₀ hten htwo (n := 28) (by norm_num), ← zpow_natCast, ← zpow_natCast,
      ← zpow_mul, ← zpow_mul, mul_comm n, mul_comm (b + 1)]
    calc (10 : ℚ) ^ ((28 : ℕ) * n) ≤ 2 ^ ((93 : ℕ) * n) :=
          zpow_mul_le_of_nonpos two_pos (by norm_num) (by norm_num) hn
      _ ≤ 2 ^ ((28 : ℕ) * (b + 1)) := zpow_le_zpow_right₀ one_le_two (by push_cast; omega)

/-- A power of two is at most one and a half times a power of ten that is no smaller by that
slope. -/
theorem two_zpow_le_ten_zpow (hlow : -1076 ≤ b) (hhigh : b ≤ 1024)
    (h : 30103 * b ≤ 100000 * n) : (2 : ℚ) ^ b ≤ 10 ^ n * (3 / 2) := by
  have hten : (0 : ℚ) ≤ 10 ^ n * (3 / 2) := (mul_pos (zpow_pos (by norm_num) n) (by norm_num)).le
  have htwo : (0 : ℚ) ≤ 2 ^ b := (zpow_pos two_pos _).le
  have hsplit (k : ℤ) : (10 : ℚ) ^ (k + 5) = 10 ^ k * 10 ^ 5 := zpow_add₀ (by norm_num) k 5
  rcases le_total 0 b with hb | hb
  · rw [← pow_le_pow_iff_left₀ htwo hten (n := 93) (by norm_num), mul_pow, ← zpow_natCast,
      ← zpow_natCast, ← zpow_mul, ← zpow_mul, mul_comm n, mul_comm b]
    calc (2 : ℚ) ^ ((93 : ℕ) * b) ≤ 10 ^ ((28 : ℕ) * b) :=
          zpow_mul_le two_pos (by norm_num) hb
      _ ≤ 10 ^ ((93 : ℕ) * n + 5) := zpow_le_zpow_right₀ (by norm_num) (by push_cast; omega)
      _ = 10 ^ ((93 : ℕ) * n) * 10 ^ 5 := hsplit _
      _ ≤ 10 ^ ((93 : ℕ) * n) * (3 / 2) ^ 93 := by gcongr; norm_num
  · rw [← pow_le_pow_iff_left₀ htwo hten (n := 196) (by norm_num), mul_pow, ← zpow_natCast,
      ← zpow_natCast, ← zpow_mul, ← zpow_mul, mul_comm n, mul_comm b]
    calc (2 : ℚ) ^ ((196 : ℕ) * b) ≤ 10 ^ ((59 : ℕ) * b) :=
          zpow_mul_le_of_nonpos (by norm_num) two_pos (by norm_num) hb
      _ ≤ 10 ^ ((196 : ℕ) * n + 5) := zpow_le_zpow_right₀ (by norm_num) (by push_cast; omega)
      _ = 10 ^ ((196 : ℕ) * n) * 10 ^ 5 := hsplit _
      _ ≤ 10 ^ ((196 : ℕ) * n) * (3 / 2) ^ 196 := by gcongr; norm_num

end Logarithm

namespace Magnitude

variable {m : Magnitude} {d : Decimal} {tie : Tie} {k start : ℤ} {fuel : ℕ}

/-- The magnitude on a grid is the fraction of its two numbers. -/
theorem onGrid_fst_div_snd (m : Magnitude) (k : ℤ) :
    ((m.onGrid k).1 : ℚ) / (m.onGrid k).2 = m.size / 10 ^ k := by
  have hten : (10 : ℚ) ^ k = 10 ^ k.toNat / 10 ^ (-k).toNat := by
    conv_lhs => rw [show k = k.toNat - (-k).toNat by omega, zpow_sub₀ (by norm_num),
      zpow_natCast, zpow_natCast]
  have hpow (j : ℕ) : (0 : ℚ) < 10 ^ j := by positivity
  have hden : (m.denominator : ℚ) ≠ 0 := by exact_mod_cast m.denominator_pos.ne'
  rw [hten, ← m.numerator_div_denominator]
  simp only [onGrid, Nat.pow_eq, Nat.cast_mul, Nat.cast_pow, Nat.cast_ofNat]
  field_simp

/-- A decimal that is less than half of the last place above a magnitude stands for it. -/
theorem contains_of_le_of_lt (hlow : m.significand ≤ m.units d)
    (hhigh : m.units d < m.significand + 1 / 2) (hpos : 0 < m.significand) :
    m.contains d = true := by
  have hlowest : (m.lowest : ℚ) < 4 * m.significand := by
    have hnat : m.lowest < 4 * m.significand := by
      unfold lowest
      split_ifs <;> omega
    exact_mod_cast hnat
  have hhighest : (m.highest : ℚ) = 4 * m.significand + 2 := by
    rw [highest]
    push_cast
    rfl
  rw [contains_iff]
  split_ifs <;> constructor <;> linarith

/-- A grid that is no coarser than half of the last place has a point for the magnitude, at it or
next above it. -/
theorem isSome_nearestOnGrid? (hpos : 0 < m.significand)
    (h : (10 : ℚ) ^ k ≤ 2 ^ (m.exponent - 1)) : (m.nearestOnGrid? tie k).isSome := by
  have hten : (0 : ℚ) < 10 ^ k := zpow_pos (by norm_num) k
  have htwo : (0 : ℚ) < 2 ^ m.exponent := zpow_pos two_pos _
  have hquotient := m.onGrid_fst_div_snd k
  unfold nearestOnGrid?
  generalize m.onGrid k = fraction at hquotient ⊢
  obtain ⟨numerator, denominator⟩ := fraction
  dsimp only at hquotient ⊢
  have hpoint : m.contains ⟨numerator / denominator, k⟩ = true ∨
      m.contains ⟨numerator / denominator + 1, k⟩ = true := by
    have hhalf : (10 : ℚ) ^ k / 2 ^ m.exponent ≤ 1 / 2 := by
      rw [div_le_iff₀ htwo, one_div, ← zpow_neg_one, ← zpow_add₀ two_ne_zero]
      exact h.trans_eq (congrArg _ (by ring))
    have hunits (c : ℕ) : m.units ⟨c, k⟩ = c * (10 ^ k / 2 ^ m.exponent) := by
      rw [units, Decimal.size, mul_div_assoc]
    have hsignificand :
        (m.significand : ℚ) = m.size / 10 ^ k * (10 ^ k / 2 ^ m.exponent) := by
      rw [size]
      field_simp
    have hstep : 0 < (10 : ℚ) ^ k / 2 ^ m.exponent := div_pos hten htwo
    have hnonneg : 0 ≤ m.size / 10 ^ k := by
      rw [← hquotient]
      positivity
    have hbelow := Nat.floor_le hnonneg
    have habove := Nat.lt_floor_add_one (m.size / 10 ^ k)
    rw [← hquotient, Nat.floor_div_eq_div, hquotient] at hbelow habove
    have hlow := mul_le_mul_of_nonneg_right hbelow hstep.le
    have hhigh := mul_lt_mul_of_pos_right habove hstep
    rw [← hsignificand] at hlow hhigh
    rcases hlow.eq_or_lt with heq | hlt
    · exact Or.inl (contains_of_le_of_lt (by rw [hunits, heq]) (by rw [hunits]; linarith) hpos)
    · refine Or.inr (contains_of_le_of_lt ?_ ?_ hpos)
      · rw [hunits]
        push_cast
        exact hhigh.le
      · rw [hunits]
        push_cast
        linarith
  cases hlower : m.contains ⟨numerator / denominator, k⟩ <;>
    cases hupper : m.contains ⟨numerator / denominator + 1, k⟩
  · simp [hlower, hupper] at hpoint
  · rfl
  · rfl
  · dsimp only
    split_ifs <;> rfl

/-- A point of a grid has the last place of the grid. -/
theorem exponent_of_nearestOnGrid? (h : m.nearestOnGrid? tie k = some d) : d.exponent = k := by
  unfold nearestOnGrid? at h
  dsimp only at h
  split at h
  · split_ifs at h <;> obtain rfl := Option.some.inj h <;> rfl
  · obtain rfl := Option.some.inj h
    rfl
  · obtain rfl := Option.some.inj h
    rfl
  · exact absurd h (Option.some_ne_none d).symm

/-- If a grid that is tried has a point, then what is found lies on it or on a coarser one. -/
theorem searchGrids_of_isSome (hgrid : (m.nearestOnGrid? tie k).isSome)
    (hle : k ≤ start) (hlt : start < k + fuel) :
    k ≤ (m.searchGrids tie fuel start).exponent ∧
      m.contains (m.searchGrids tie fuel start) = true := by
  induction fuel generalizing start with
  | zero => omega
  | succ fuel ih =>
    rw [searchGrids]
    cases hfirst : m.nearestOnGrid? tie start with
    | some d =>
      exact ⟨hle.trans (exponent_of_nearestOnGrid? hfirst).ge, contains_of_nearestOnGrid? hfirst⟩
    | none =>
      have hne : k ≠ start := by
        rintro rfl
        simp [hfirst] at hgrid
      exact ih (by omega) (by omega)

/-- **The shortest decimal of a magnitude stands for it**, its coefficient fits a word, and its last
digit is no lower than the one of the least magnitude. -/
theorem IsBinary64.shortest_mem (hm : m.IsBinary64) (tie : Tie) :
    m.contains (m.shortest tie) = true ∧ (m.shortest tie).coefficient < wordCount ∧
      -324 ≤ (m.shortest tie).exponent := by
  obtain ⟨hpos, hlt, hleast, hmost, -⟩ := hm
  have hlog : m.significand.log2 < 53 := (Nat.log2_lt hpos.ne').mpr hlt
  have hten (k : ℤ) : (0 : ℚ) < 10 ^ k := zpow_pos (by norm_num) k
  set b : ℤ := m.significand.log2 + 1 + m.exponent with hb
  have hgrid : m.coarsestGrid = b * 30103 / 100000 + 1 := rfl
  -- the last grid that is tried is fine enough, so one of them has a point
  have hlast : (10 : ℚ) ^ (m.coarsestGrid - 19) ≤ 2 ^ (m.exponent - 1) := by
    have hcoarse : (10 : ℚ) ^ (m.coarsestGrid - 1) ≤ 2 ^ (b + 1) :=
      ten_zpow_le_two_zpow (by omega) (by omega) (by omega)
    calc (10 : ℚ) ^ (m.coarsestGrid - 19) = 10 ^ (m.coarsestGrid - 1) * 10 ^ (-18 : ℤ) := by
          rw [← zpow_add₀ (by norm_num)]
          congr 1
          ring
      _ ≤ 2 ^ (b + 1) * 2 ^ (-59 : ℤ) :=
          mul_le_mul hcoarse (by norm_num) (hten _).le (zpow_pos two_pos _).le
      _ = 2 ^ (b + 1 + -59) := (zpow_add₀ two_ne_zero _ _).symm
      _ ≤ 2 ^ (m.exponent - 1) := zpow_le_zpow_right₀ one_le_two (by omega)
  obtain ⟨hfound, hcontains⟩ : m.coarsestGrid - 19 ≤ (m.shortest tie).exponent ∧
      m.contains (m.shortest tie) = true :=
    searchGrids_of_isSome (isSome_nearestOnGrid? hpos hlast) (by omega) (by omega)
  refine ⟨hcontains, ?_, ?_⟩
  · have hunits := (le_of_contains hpos hcontains).2.1
    have hpower : (m.significand : ℚ) + 1 / 2 ≤ 2 ^ ((m.significand.log2 : ℤ) + 1) := by
      have hnat : m.significand + 1 ≤ 2 ^ (m.significand.log2 + 1) := Nat.lt_log2_self
      have hcast : (m.significand : ℚ) + 1 ≤ 2 ^ (m.significand.log2 + 1) := by
        exact_mod_cast hnat
      rw [← zpow_natCast] at hcast
      push_cast at hcast
      linarith
    have hbits : (2 : ℚ) ^ b ≤ 10 ^ m.coarsestGrid * (3 / 2) :=
      two_zpow_le_ten_zpow (by omega) (by omega) (by omega)
    have hsize : (m.shortest tie).size ≤ 2 ^ b := by
      rw [hb, zpow_add₀ two_ne_zero, ← div_le_iff₀ (zpow_pos two_pos _)]
      exact hunits.trans hpower
    have hle : ((m.shortest tie).coefficient : ℚ) * 10 ^ (m.coarsestGrid - 19) ≤
        10 ^ (m.coarsestGrid - 19) * (3 / 2 * 10 ^ 19) := by
      calc ((m.shortest tie).coefficient : ℚ) * 10 ^ (m.coarsestGrid - 19)
          ≤ (m.shortest tie).coefficient * 10 ^ (m.shortest tie).exponent :=
            mul_le_mul_of_nonneg_left (zpow_le_zpow_right₀ (by norm_num) hfound)
              (Nat.cast_nonneg _)
        _ ≤ 10 ^ m.coarsestGrid * (3 / 2) := hsize.trans hbits
        _ = 10 ^ (m.coarsestGrid - 19) * (3 / 2 * 10 ^ 19) := by
            conv_lhs => rw [← sub_add_cancel m.coarsestGrid 19, zpow_add₀ (by norm_num)]
            norm_num
            ring
    rw [mul_comm, mul_le_mul_iff_right₀ (hten _)] at hle
    have hlimit : ((m.shortest tie).coefficient : ℚ) < wordCount := by
      rw [wordCount]
      exact hle.trans_lt (by norm_num)
    exact_mod_cast hlimit
  · by_cases hbelow : -324 < m.coarsestGrid - 19
    · omega
    · have hleast : (10 : ℚ) ^ (-324 : ℤ) ≤ 2 ^ (m.exponent - 1) := by
        calc (10 : ℚ) ^ (-324 : ℤ) ≤ 2 ^ (-1076 + 1 : ℤ) :=
              ten_zpow_le_two_zpow (by norm_num) (by norm_num) (by norm_num)
          _ ≤ 2 ^ (m.exponent - 1) := zpow_le_zpow_right₀ one_le_two (by omega)
      exact (searchGrids_of_isSome (isSome_nearestOnGrid? hpos hleast) (by omega) (by omega)).1

end Magnitude

end FlowControl
