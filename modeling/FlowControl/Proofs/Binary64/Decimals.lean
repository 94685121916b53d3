import FlowControl.Proofs.Binary64.Arithmetic

/-!
# Decimals and signs

A decimal is read as the number nearest to it, also where its power of ten is too large or too
small to be written out. A number and its negative differ in the sign bit only, so that one of
them is finite exactly if the other one is.
-/

namespace FlowControl

open Float.Model Float.Model.UnpackedFloat

/-- The rational that a decimal stands for. -/
def Decimal.size (d : Decimal) : ℚ := d.coefficient * 10 ^ d.exponent

namespace Binary64

/-- What is less than half of the least positive number is rounded to zero. -/
theorem nearest_eq_zero {q : ℚ} (hq : 0 ≤ q) (h : q < 2 ^ (-1075 : ℤ)) : nearest q = 0 := by
  rcases hq.eq_or_lt with rfl | hpos
  · exact nearest_zero
  have hplace : lastPlace q = -1074 :=
    lastPlace_eq_of_lt hpos (h.trans (zpow_lt_zpow_right₀ one_lt_two (by norm_num)))
  have hhalf : q / 2 ^ lastPlace q < 1 / 2 := by
    rw [hplace, div_lt_iff₀ (zpow_pos two_pos _)]
    calc q < 2 ^ (-1 + -1074 : ℤ) := h
      _ = 2 ^ (-1 : ℤ) * 2 ^ (-1074 : ℤ) := zpow_add₀ two_ne_zero _ _
      _ = 1 / 2 * 2 ^ (-1074 : ℤ) := by rw [zpow_neg_one, one_div]
  have hnonneg : 0 ≤ q / 2 ^ lastPlace q := div_nonneg hq (zpow_pos two_pos _).le
  have hfloor : ⌊q / 2 ^ lastPlace q⌋ = 0 := Int.floor_eq_zero_iff.mpr ⟨hnonneg, by linarith⟩
  have hfract : Int.fract (q / 2 ^ lastPlace q) < 1 / 2 := by
    rwa [Int.fract, hfloor, Int.cast_zero, sub_zero]
  rw [nearest, nearestInt, if_pos hfract, hfloor, Int.cast_zero, zero_mul]

section Decimals

variable {m : ℕ} {e : ℤ}

/-- A decimal with a large power of ten is too large. -/
theorem rounded_of_large (hm : m ≠ 0) (he : 2048 < e) : rounded (m * 10 ^ e) = ⊤ := by
  have hpower : (2 : ℚ) ^ 1024 ≤ m * 10 ^ e := by
    calc (2 : ℚ) ^ 1024 ≤ 10 ^ 1024 := by gcongr; norm_num
      _ = 10 ^ (1024 : ℤ) := (zpow_natCast 10 1024).symm
      _ ≤ 10 ^ e := zpow_le_zpow_right₀ (by norm_num) (by omega)
      _ ≤ m * 10 ^ e :=
          le_mul_of_one_le_left (by positivity) (by exact_mod_cast Nat.one_le_iff_ne_zero.mpr hm)
  have hnearest : (2 : ℚ) ^ 1024 ≤ nearest (m * 10 ^ e) :=
    (Representable.two_pow 1024).le_nearest (by positivity) hpower
  rw [rounded, if_neg (not_lt.mpr hnearest)]

/-- A decimal with a power of ten that is small compared with its digits is too small. -/
theorem rounded_of_small (he : e < -(2048 + (m.log2 : ℤ))) : rounded (m * 10 ^ e) = 0 := by
  have hcoefficient : (m : ℚ) ≤ 2 ^ ((m.log2 : ℤ) + 1) := by
    exact_mod_cast Nat.lt_log2_self.le
  have hpower : (10 : ℚ) ^ e ≤ 2 ^ e := by
    obtain ⟨k, rfl⟩ : ∃ k : ℕ, e = -k := ⟨(-e).toNat, by omega⟩
    rw [zpow_neg, zpow_neg, zpow_natCast, zpow_natCast]
    gcongr
    norm_num
  have hsmall : (m : ℚ) * 10 ^ e < 2 ^ (-1075 : ℤ) := by
    calc (m : ℚ) * 10 ^ e ≤ 2 ^ ((m.log2 : ℤ) + 1) * 2 ^ e := by gcongr
      _ = 2 ^ ((m.log2 : ℤ) + 1 + e) := (zpow_add₀ two_ne_zero _ _).symm
      _ < 2 ^ (-1075 : ℤ) := zpow_lt_zpow_right₀ one_lt_two (by omega)
  rw [rounded, nearest_eq_zero (by positivity) hsmall, if_pos (by positivity)]
  rfl

/-- A multiple of a power of ten has enough bits before it is rounded. -/
theorem rounds_mul_ten_pow (hm : 0 < m) (k : ℕ) :
    Rounds .positive (m * 10 ^ k)
      (roundWithAccuracy Format.binary64 .positive (m <<< 53 * 10 ^ k) (-53 + 0) .exact) := by
  have hunits : m * (10 : ℚ) ^ k / (2 : ℚ) ^ (-53 + 0 : ℤ) = (m <<< 53 * 10 ^ k : ℕ) := by
    rw [Nat.shiftLeft_eq, add_zero, zpow_neg, div_inv_eq_mul]
    push_cast
    exact mul_right_comm _ _ _
  refine rounds_roundWithAccuracy (by positivity) ?_ (Or.inl ?_)
  · rw [hunits]
    rfl
  · calc 2 ^ 52 ≤ 2 ^ 53 := by norm_num
      _ ≤ m * 2 ^ 53 := Nat.le_mul_of_pos_left _ hm
      _ = m <<< 53 := (Nat.shiftLeft_eq m 53).symm
      _ ≤ m <<< 53 * 10 ^ k := Nat.le_mul_of_pos_right _ (by positivity)

/-- **A decimal is read as the number nearest to it.** -/
theorem hasSize_decimal (d : Decimal) : HasSize d.toFloat (rounded d.size) := by
  obtain ⟨m, e⟩ := d
  have hread : Decimal.toFloat ⟨m, e⟩ =
      .ofModel (.pack (UnpackedFloat.ofScientific Format.binary64 m e)) := rfl
  unfold Decimal.size
  dsimp only
  rw [hread, UnpackedFloat.ofScientific]
  split_ifs with hm hlarge hsmall hwhole
  · rw [hm, Nat.cast_zero, zero_mul, rounded_zero]
    exact hasSize_zero
  · rw [rounded_of_large hm hlarge]
    exact .infinite (by rw [unpacked_pack, unpack_pack_infinity])
  · rw [rounded_of_small hsmall]
    exact hasSize_zero
  · rw [← Int.toNat_of_nonneg hwhole, zpow_natCast]
    exact hasSize_of_rounds (rounds_mul_ten_pow (Nat.pos_of_ne_zero hm) e.toNat)
  · have hten : 0 < 10 ^ (-e).toNat := Nat.pow_pos (by decide)
    have hvalue : (m : ℚ) * 10 ^ e =
        m * 2 ^ (0 : ℤ) / ((10 ^ (-e).toNat : ℕ) * 2 ^ (0 : ℤ)) := by
      have he : e = -((-e).toNat : ℤ) := by omega
      conv_lhs => rw [he, zpow_neg, zpow_natCast, ← div_eq_mul_inv]
      rw [zpow_zero, mul_one, mul_one, Nat.cast_pow, Nat.cast_ofNat]
    rw [hvalue]
    exact hasSize_of_rounds (rounds_div (Nat.pos_of_ne_zero hm) hten)

end Decimals

section Signs

/-- The negative of a number, unpacked. -/
theorem unpacked_neg (x : Float) : unpacked (-x) = (unpacked x).neg := by
  have hneg : -x = .ofModel (.pack (unpacked x).neg) := rfl
  rw [hneg, unpacked_pack]
  cases hx : unpacked x with
  | notANumber => rfl
  | infinity sign => exact unpack_pack_infinity
  | zero sign => exact unpack_pack_zero
  | finite sign m e hm => exact unpack_pack (canonical_of_unpacked hx)

/-- A number is finite exactly if its negative is. -/
theorem isFinite_neg (x : Float) : (-x).isFinite = x.isFinite := by
  have hfinite (y : Float) : y.isFinite = (unpacked y).isFinite := rfl
  rw [hfinite, hfinite, unpacked_neg]
  cases unpacked x <;> rfl

end Signs

end Binary64

end FlowControl
