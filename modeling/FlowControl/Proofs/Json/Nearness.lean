import FlowControl.Proofs.Decimal.Grids
import FlowControl.Proofs.Json.Scaling

/-!
# How near a number is when it is read

The shortest decimal of a number lies within half a place of it. So a number that is read from this
decimal is as many places away at most as there were roundings before the last one. No number
becomes infinite in this way: the two greatest ones, which are closest to that, are read as the
greatest.
-/

namespace FlowControl

open Binary64 Float.Model

namespace Magnitude

variable {m : Magnitude} {d : Decimal} {x y : Float} {n : ℕ} {q : ℚ}

/-- Below a power of two a decimal that stands for it is half as far away. -/
theorem sub_quarter_le_of_contains (hm : m.significand = 2 ^ 52) (he : m.exponent ≠ -1074)
    (h : m.contains d = true) : (m.significand : ℚ) - 1 / 4 ≤ m.units d := by
  have hlowest : m.lowest = 4 * 2 ^ 52 - 1 := by
    rw [lowest, if_pos ⟨hm, he⟩, hm]
  rw [contains_iff, if_pos (by omega), hlowest] at h
  rw [hm]
  have := h.1
  norm_num at this ⊢
  linarith

/-- Two roundings change a decimal that stands for a number by less than two units. -/
theorem lt_of_within {hm : 0 < m.significand}
    (hx : unpacked x = .finite .positive m.significand m.exponent hm) (hd : m.contains d = true)
    (hq : Within n q d.size) (hn : n = 1 ∨ n = 2) :
    q / 2 ^ m.exponent < m.significand + 1 / 2 + n := by
  have hmost : (m.significand : ℚ) + 1 ≤ 2 ^ 53 := by exact_mod_cast (canonical_of_unpacked hx).lt
  have hhigh := (le_of_contains hm hd).2.1
  have hmore : q / 2 ^ m.exponent ≤ m.units d * (1 + roundoff) ^ n :=
    (hq.div_right (zpow_pos two_pos _)).1
  rw [show roundoff = 1 / 2 ^ 53 by norm_num [roundoff]] at hmore
  rcases hn with rfl | rfl <;> norm_num at hmore ⊢ <;> linarith

/-- What is within one or two roundings of a decimal that stands for a number is as many places
away from it at most. -/
theorem places_le_of_within {hm : 0 < m.significand}
    (hx : unpacked x = .finite .positive m.significand m.exponent hm) (hd : m.contains d = true)
    (hq : Within n q d.size) (hpos : 0 < q) (hn : n = 1 ∨ n = 2) (hy : HasSize y (nearest q)) :
    places x y ≤ n := by
  have hmost : (m.significand : ℚ) + 1 ≤ 2 ^ 53 := by exact_mod_cast (canonical_of_unpacked hx).lt
  have hlow := (le_of_contains hm hd).1
  have hless : m.units d ≤ q / 2 ^ m.exponent * (1 + roundoff) ^ n :=
    (hq.div_right (zpow_pos two_pos _)).2
  have habove := lt_of_within hx hd hq hn
  rw [show roundoff = 1 / 2 ^ 53 by norm_num [roundoff]] at hless
  refine places_le hx hpos hy ?_ habove (fun hsmall hplace => ⟨?_, fun hpower => ?_⟩) (by omega)
  · rcases hn with rfl | rfl <;> norm_num at hless habove ⊢ <;> linarith
  · rcases hn with rfl | rfl <;> norm_num at hless hsmall ⊢ <;> linarith
  · have hquarter := sub_quarter_le_of_contains hpower hplace hd
    have hpower' : (m.significand : ℚ) = 2 ^ 52 := by exact_mod_cast hpower
    rcases hn with rfl | rfl <;> norm_num at hless hsmall ⊢ <;> linarith

/-- What is so little above a number is rounded to a finite number, unless the number is one of the
greatest. -/
theorem rounded_eq_nearest_of_lt (hm : m.IsBinary64) (hpos : 0 < q)
    (hq : q / 2 ^ m.exponent < m.significand + 1 / 2 + n) (hn : n ≤ 2)
    (hroom : m.exponent < 971 ∨ m.significand + n < 2 ^ 53) : rounded q = nearest q := by
  have hpow : (0 : ℚ) < 2 ^ m.exponent := zpow_pos two_pos _
  have hmost : (m.significand : ℚ) + 1 ≤ 2 ^ 53 := by exact_mod_cast hm.canonical.lt
  have hn' : (n : ℚ) ≤ 2 := by exact_mod_cast hn
  have hunder {k : ℕ} {e : ℤ} (hk : Canonical k e) (hle : q ≤ k * 2 ^ e) :
      nearest q < 2 ^ 1024 :=
    ((Representable.of_mul hk.lt.le hk.least_le).nearest_le hpos.le hle).trans_lt hk.lt_two_pow
  have hfinite : nearest q < 2 ^ 1024 := by
    rcases lt_or_eq_of_le hm.canonical.le_most with hlt | heq
    · have hleast := hm.canonical.least_le
      refine hunder (k := 2 ^ 52 + 1) (e := m.exponent + 1)
        ⟨by norm_num, by omega, hlt, Or.inl (by norm_num)⟩ ?_
      rw [div_lt_iff₀ hpow] at hq
      rw [zpow_add_one₀ two_ne_zero]
      push_cast
      nlinarith
    · have hroom' : (m.significand : ℚ) + n + 1 ≤ 2 ^ 53 := by
        exact_mod_cast hroom.resolve_left heq.not_lt
      rw [heq] at hq hpow
      by_cases hnormal : 2 ^ 52 ≤ q / 2 ^ (971 : ℤ)
      · rw [nearest_eq_of_scaled hpos (by norm_num) (Or.inl hnormal) (by linarith) rfl]
        obtain ⟨hmore, hless⟩ := abs_le.mp (abs_nearestInt_sub_le (q / 2 ^ (971 : ℤ)))
        generalize nearestInt (q / 2 ^ (971 : ℤ)) = i at hmore hless
        have hlow : (2 ^ 52 : ℚ) < i + 1 := by linarith
        have hhigh : (i : ℚ) < 2 ^ 53 := by linarith
        have hlow' : 2 ^ 52 < i + 1 := by exact_mod_cast hlow
        have hhigh' : i < 2 ^ 53 := by exact_mod_cast hhigh
        obtain ⟨k, rfl⟩ := Int.eq_ofNat_of_zero_le (by omega : 0 ≤ i)
        exact Canonical.lt_two_pow ⟨by omega, by norm_num, le_rfl, Or.inl (by omega)⟩
      · rw [not_le, div_lt_iff₀ hpow] at hnormal
        refine hunder (k := 2 ^ 52) ⟨by norm_num, by norm_num, le_rfl, Or.inl le_rfl⟩ ?_
        exact_mod_cast hnormal.le
  rw [rounded, if_pos hfinite]

/-- Whether a decimal stands for a magnitude is a matter of its size. -/
theorem contains_congr {d' : Decimal} (h : d.size = d'.size) : m.contains d = m.contains d' := by
  rw [Bool.eq_iff_iff, contains_iff, contains_iff, units, units, h]

/-- A decimal that stands for a magnitude is not zero. -/
theorem IsBinary64.size_pos (hm : m.IsBinary64) (hd : m.contains d = true) : 0 < d.size := by
  have hpow : (0 : ℚ) < 2 ^ m.exponent := zpow_pos two_pos _
  have hone : (1 : ℚ) ≤ m.significand := by exact_mod_cast hm.pos
  have hlow := (le_of_contains hm.pos hd).1
  exact (div_pos_iff_of_pos_right hpow).mp (by rw [← units]; linarith)

/-- A decimal that stands for a number has a power of ten that is one. -/
theorem IsBinary64.exponent_le (hm : m.IsBinary64) (hd : m.contains d = true) :
    d.exponent ≤ 308 := by
  by_contra hlarge
  have hpow : (0 : ℚ) < 2 ^ m.exponent := zpow_pos two_pos _
  have hmost : (m.significand : ℚ) + 1 ≤ 2 ^ 53 := by exact_mod_cast hm.canonical.lt
  have hcoefficient : (1 : ℚ) ≤ d.coefficient := by
    have hpos := hm.size_pos hd
    rw [Decimal.size, mul_pos_iff_of_pos_right (zpow_pos (by norm_num) _)] at hpos
    exact_mod_cast Nat.cast_pos.mp hpos
  have hlimit : (2 : ℚ) ^ 1024 < 10 ^ 309 := by
    exact_mod_cast (by decide +kernel : 2 ^ 1024 < 10 ^ 309)
  refine hlimit.not_ge ?_
  calc (10 : ℚ) ^ 309 = 10 ^ (309 : ℤ) := (zpow_natCast 10 309).symm
    _ ≤ 10 ^ d.exponent := zpow_le_zpow_right₀ (by norm_num) (by omega)
    _ ≤ d.size := le_mul_of_one_le_left (zpow_pos (by norm_num) _).le hcoefficient
    _ = m.units d * 2 ^ m.exponent := (div_mul_cancel₀ _ hpow.ne').symm
    _ ≤ 2 ^ 53 * 2 ^ m.exponent := mul_le_mul_of_nonneg_right
        (by linarith [(le_of_contains hm.pos hd).2.1]) hpow.le
    _ ≤ 2 ^ 53 * 2 ^ (971 : ℤ) := mul_le_mul_of_nonneg_left
        (zpow_le_zpow_right₀ one_le_two hm.canonical.le_most) (by norm_num)
    _ = 2 ^ 1024 := by
        rw [← zpow_natCast, ← zpow_natCast, ← zpow_add₀ two_ne_zero]
        rfl

/-- A word of tenths is far below the greatest numbers. -/
theorem IsBinary64.exponent_ne_of_exponent_eq (hm : m.IsBinary64) (hd : m.contains d = true)
    (he : m.exponent = 971) (hlt : d.coefficient < wordCount) : d.exponent ≠ -1 := by
  intro hk
  have hone : (1 : ℚ) ≤ m.significand := by exact_mod_cast hm.pos
  have hlow := (le_of_contains hm.pos hd).1
  have hmost : (d.coefficient : ℚ) ≤ wordCount := by exact_mod_cast hlt.le
  have hsize : m.units d * 2 ^ (971 : ℤ) = d.coefficient * 10 ^ (-1 : ℤ) := by
    rw [units, he, div_mul_cancel₀ _ (zpow_pos two_pos _).ne', Decimal.size, hk]
  have hpower : (2 : ℚ) ^ (65 : ℤ) < 2 ^ (971 : ℤ) := zpow_lt_zpow_right₀ one_lt_two (by norm_num)
  have hhalf : (2 : ℚ) ^ (971 : ℤ) * (1 / 2) ≤ m.units d * 2 ^ (971 : ℤ) := by
    rw [mul_comm]
    exact mul_le_mul_of_nonneg_right (by linarith) (zpow_pos two_pos _).le
  rw [hsize] at hhalf
  generalize (2 : ℚ) ^ (971 : ℤ) = top at hhalf hpower
  norm_num [wordCount] at hhalf hpower
  rw [wordCount] at hmost
  push_cast at hmost
  linarith

end Magnitude

namespace Json.Numeral

open Magnitude

variable {m : Magnitude} {d : Decimal} {x : Float}

/-- The greatest number. -/
def greatest : Float := Float.ofBits 0x7fefffffffffffff

/-- The greatest number has all its digits set and the highest last place. -/
theorem unpacked_greatest :
    unpacked greatest = .finite .positive (2 ^ 53 - 1) 971 (by norm_num) := by rfl

/-- Digits of which the product with the power of ten is the greatest number are scaled to it. -/
theorem scale_eq_greatest {c : ℕ}
    (h : c.toUInt64.toFloat * tenTo 292 = greatest) :
    scale 3 c.toUInt64.toFloat 292 = .ok greatest := by
  rw [scale, if_pos (by decide), if_pos (by decide)]
  exact (congrArg (fun product => if product.isInf then Except.error TextFault.malformed
    else .ok product) h).trans (if_neg (by decide +kernel))

/-- The two greatest numbers are read as the greatest one. -/
theorem scale_shortest_greatest {significand : ℕ} (hlt : significand < 2 ^ 53)
    (h : 2 ^ 53 ≤ significand + 2) :
    scale 3 (Magnitude.shortest ⟨significand, 971⟩ .toEven).coefficient.toUInt64.toFloat
      (Magnitude.shortest ⟨significand, 971⟩ .toEven).exponent = .ok greatest := by
  rcases (by omega : significand = 2 ^ 53 - 1 ∨ significand = 2 ^ 53 - 2) with rfl | rfl
  · have hshortest : Magnitude.shortest ⟨2 ^ 53 - 1, 971⟩ .toEven = ⟨17976931348623157, 292⟩ := by
      decide +kernel
    rw [hshortest]
    exact scale_eq_greatest (by decide +kernel)
  · have hshortest : Magnitude.shortest ⟨2 ^ 53 - 2, 971⟩ .toEven = ⟨17976931348623155, 292⟩ := by
      decide +kernel
    rw [hshortest]
    exact scale_eq_greatest (by decide +kernel)

/-- How near a number is that is read from a decimal where another one was written: two places, one
place if the digits or the power of ten are exact, and none if both are. -/
structure Near (d : Decimal) (x y : Float) : Prop where
  places_le_two : places x y ≤ 2
  places_le_one : -308 ≤ d.exponent → Representable d.coefficient ∨ d.exponent.natAbs ≤ 22 →
    places x y ≤ 1
  eq : Representable d.coefficient → d.exponent.natAbs ≤ 22 → y = x

/-- **A number is read from its shortest decimal, as a number that is few places away from it.** -/
theorem exists_scale {hm : 0 < m.significand}
    (hx : unpacked x = .finite .positive m.significand m.exponent hm)
    (hsize : d.size = (m.shortest .toEven).size)
    (hwritten : d = m.shortest .toEven ∨ d.exponent = -1) (hlt : d.coefficient < wordCount) :
    ∃ (y : Float) (r : ℚ), scale 3 d.coefficient.toUInt64.toFloat d.exponent = .ok y ∧
      HasSize y r ∧ Near d x y := by
  have hbinary : m.IsBinary64 := ⟨hm, canonical_of_unpacked hx⟩
  obtain ⟨hcontains, -, hleast⟩ := hbinary.shortest_mem .toEven
  rw [← contains_congr hsize] at hcontains
  have hpos : 0 < d.coefficient := by
    by_contra hzero
    have := hbinary.size_pos hcontains
    rw [Decimal.size, Nat.eq_zero_of_not_pos hzero, Nat.cast_zero, zero_mul] at this
    exact lt_irrefl _ this
  have hlow : -324 ≤ d.exponent := by
    rcases hwritten with rfl | h
    · exact hleast
    · omega
  obtain ⟨n, q, hn, hwithin, hscales, hone, hzero⟩ :=
    exists_scalesTo hpos hlt hlow (hbinary.exponent_le hcontains)
  rcases Nat.eq_zero_or_pos n with rfl | hn'
  · -- without roundings the decimal itself is rounded
    have hrounded : rounded q = m.size := by
      rw [hwithin.eq_of_zero, hsize]
      exact hbinary.rounded_shortest .toEven
    obtain ⟨y, hscale, hy⟩ := hscales _ hrounded
    obtain rfl : y = x := hy.eq_of_eq (.finite hx) rfl
    exact ⟨y, _, hscale, hy, by simp [places], by simp [places], fun _ _ => rfl⟩
  have hplaces : ∃ (y : Float) (r : ℚ), scale 3 d.coefficient.toUInt64.toFloat d.exponent = .ok y ∧
      HasSize y r ∧ places x y ≤ n := by
    by_cases hroom : m.exponent < 971 ∨ m.significand + n < 2 ^ 53
    · have hq := hwithin.pos (hbinary.size_pos hcontains)
      have hfinite := rounded_eq_nearest_of_lt hbinary hq
        (lt_of_within hx hcontains hwithin (by omega)) hn hroom
      obtain ⟨y, hscale, hy⟩ := hscales _ hfinite
      exact ⟨y, _, hscale, hy, places_le_of_within hx hcontains hwithin hq (by omega) hy⟩
    · obtain ⟨significand, exponent⟩ := m
      have hmost := hbinary.canonical.le_most
      have hlt' := hbinary.canonical.lt
      have hbits := toBits_of_finite hx
      dsimp only at hroom hmost hlt' hbits
      obtain rfl : exponent = 971 := by omega
      obtain rfl := hwritten.resolve_right
        (hbinary.exponent_ne_of_exponent_eq hcontains rfl hlt)
      refine ⟨greatest, _, scale_shortest_greatest hlt' (by omega), .finite unpacked_greatest, ?_⟩
      rw [places, hbits, toBits_of_finite unpacked_greatest]
      omega
  obtain ⟨y, r, hscale, hy, hle⟩ := hplaces
  exact ⟨y, r, hscale, hy, hle.trans hn, fun h h' => hle.trans (hone h h'),
    fun h h' => absurd (hzero h h') hn'.ne'⟩

/-- Two places are reached. -/
example : (scale 3 (9032330635965109 : ℕ).toUInt64.toFloat 68).toOption.map
    (places 9.032330635965109e83) = some 2 := by
  decide +kernel

end Json.Numeral

end FlowControl
