import FlowControl.Proofs.Binary64.Places
import FlowControl.Proofs.Json.Finite

/-!
# Scaling by powers of ten

The digits of a JSON number become a word, and the word is multiplied or divided by a power of ten.
The word is rounded, the power is rounded, and so is the result. Below the least power of ten the
quotient is taken in two pieces, with one more rounding, but not all of these can be as far off as a
rounding can be. So what is rounded in the end is within two roundings of the decimal, within one if
the word or the power is exact, and it is the decimal if both are.
-/

namespace FlowControl.Json.Numeral

open Binary64 Float.Model

variable {x : Float} {c j : ℕ} {k : ℤ}

/-! ### Powers of ten -/

/-- A power of ten up to the greatest one is rounded once. -/
theorem hasSize_tenTo (hj : j ≤ greatestTenExponent) :
    HasSize (tenTo j) (nearest (10 ^ j)) := by
  obtain ⟨p, hp, -⟩ := exists_hasSize_tenTo hj
  have hsize := hasSize_tenTo_rounded j
  have hfinite : nearest (10 ^ j) < 2 ^ 1024 := by
    by_contra hlarge
    rw [rounded, if_neg hlarge] at hsize
    exact WithTop.coe_ne_top (hp.unique hsize)
  rwa [rounded, if_pos hfinite] at hsize

/-- A whole number is normal. -/
theorem normal_of_one_le {q : ℚ} (h : 1 ≤ q) : 2 ^ (-1022 : ℤ) ≤ q :=
  (zpow_le_one_of_nonpos₀ one_le_two (by norm_num)).trans h

/-- No power of ten is below one. -/
theorem one_le_ten_pow (j : ℕ) : (1 : ℚ) ≤ 10 ^ j := one_le_pow₀ (by norm_num)

/-- The powers of ten up to the twenty-second are exact. -/
theorem representable_ten_pow (hj : j ≤ 22) : Representable (10 ^ j) := by
  have hfive : 5 ^ j ≤ 2 ^ 53 :=
    (Nat.pow_le_pow_right (by norm_num) hj).trans (by norm_num)
  have hsplit : (10 : ℚ) ^ j = (5 ^ j : ℕ) * 2 ^ (j : ℤ) := by
    rw [zpow_natCast, Nat.cast_pow, Nat.cast_ofNat, ← mul_pow]
    norm_num
  rw [hsplit]
  exact Representable.of_mul hfive (by omega)

/-- A power of ten is within one rounding of itself, and the first ones are exact. -/
theorem exists_within_ten_pow (j : ℕ) :
    ∃ n ≤ 1, Within n (nearest (10 ^ j)) (10 ^ j) ∧ (j ≤ 22 → n = 0) := by
  by_cases hj : j ≤ 22
  · refine ⟨0, by norm_num, ?_, fun _ => rfl⟩
    rw [(representable_ten_pow hj).nearest_eq]
    exact .refl 0 (by positivity)
  · exact ⟨1, le_rfl, within_nearest (normal_of_one_le (one_le_ten_pow j)), fun h => absurd h hj⟩

/-- A word is within one rounding of itself, and it may be exact. -/
theorem exists_within_word (hc : 0 < c) :
    ∃ n ≤ 1, Within n (nearest c) c ∧ (Representable c → n = 0) := by
  by_cases hexact : Representable c
  · refine ⟨0, by norm_num, ?_, fun _ => rfl⟩
    rw [hexact.nearest_eq]
    exact .refl 0 (Nat.cast_nonneg c)
  · have hone : (1 : ℚ) ≤ c := by exact_mod_cast hc
    exact ⟨1, le_rfl, within_nearest (normal_of_one_le hone), fun h => absurd h hexact⟩

/-- Digits that fit a word become the number nearest to them. -/
theorem hasSize_word (hlt : c < wordCount) : HasSize c.toUInt64.toFloat (nearest c) := by
  have hsize := hasSize_toFloat c.toUInt64
  rwa [show c.toUInt64.toNat = c from Nat.mod_eq_of_lt hlt] at hsize

/-! ### One piece -/

/-- What is scaled to a finite number. -/
def ScalesTo (c : ℕ) (k : ℤ) (q : ℚ) : Prop :=
  ∀ r : ℚ, rounded q = r →
    ∃ y, scale 3 c.toUInt64.toFloat k = .ok y ∧ HasSize y r

/-- A word is multiplied by a power of ten. -/
theorem scalesTo_mul (hlt : c < wordCount) (hj : j ≤ greatestTenExponent) :
    ScalesTo c j (nearest c * nearest (10 ^ j)) := by
  intro r hr
  have hproduct := (hasSize_word hlt).mul (hasSize_tenTo hj)
  rw [hr] at hproduct
  refine ⟨c.toUInt64.toFloat * tenTo j, ?_, hproduct⟩
  have hfinite : ¬ (c.toUInt64.toFloat * tenTo j).isInf = true :=
    mt hproduct.isInf_iff.mp WithTop.coe_ne_top
  rw [scale, Int.natAbs_natCast, if_pos hj, if_pos (Int.natCast_nonneg j)]
  exact if_neg hfinite

/-- A word is divided by a power of ten. -/
theorem scalesTo_div (hlt : c < wordCount) (hpos : 0 < j) (hj : j ≤ greatestTenExponent) :
    ScalesTo c (-j) (nearest c / nearest (10 ^ j)) := by
  intro r hr
  have hten : 0 < nearest (10 ^ j) :=
    one_pos.trans_le (Representable.one.le_nearest (by positivity) (one_le_ten_pow j))
  have hquotient := (hasSize_word hlt).div (hasSize_tenTo hj) hten
  rw [hr] at hquotient
  refine ⟨c.toUInt64.toFloat / tenTo j, ?_, hquotient⟩
  rw [scale, Int.natAbs_neg, Int.natAbs_natCast, if_pos hj, if_neg (by omega)]

/-- In one piece there are two roundings at most before the last one. -/
theorem exists_scalesTo_of_le (hc : 0 < c) (hlt : c < wordCount)
    (hk : k.natAbs ≤ greatestTenExponent) :
    ∃ n q, n ≤ 2 ∧ Within n q (Decimal.size ⟨c, k⟩) ∧ ScalesTo c k q ∧
      (Representable c ∨ k.natAbs ≤ 22 → n ≤ 1) ∧
      (Representable c → k.natAbs ≤ 22 → n = 0) := by
  obtain ⟨a, ha, hword, hexact⟩ := exists_within_word hc
  obtain ⟨b, hb, hpower, hfirst⟩ := exists_within_ten_pow k.natAbs
  have hten : (0 : ℚ) < 10 ^ k.natAbs := by positivity
  have hword' : (0 : ℚ) ≤ c := Nat.cast_nonneg c
  refine ⟨a + b, ?_⟩
  have hcount : a + b ≤ 2 ∧ (Representable c ∨ k.natAbs ≤ 22 → a + b ≤ 1) ∧
      (Representable c → k.natAbs ≤ 22 → a + b = 0) := by
    refine ⟨by omega, ?_, fun h h' => by rw [hexact h, hfirst h']⟩
    rintro (h | h)
    · rw [hexact h]
      omega
    · rw [hfirst h]
      omega
  rcases le_or_gt 0 k with hsign | hsign
  · have hnonneg : (k.natAbs : ℤ) = k := Int.natAbs_of_nonneg hsign
    refine ⟨nearest c * nearest (10 ^ k.natAbs), hcount.1, ?_, ?_, hcount.2⟩
    · have hsize : Decimal.size ⟨c, k⟩ = c * 10 ^ k.natAbs := by
        rw [Decimal.size, ← zpow_natCast, hnonneg]
      rw [hsize]
      exact hword.mul hpower (nearest_nonneg hword') hword' (nearest_nonneg hten.le) hten.le
    · rw [← hnonneg, Int.natAbs_natCast]
      exact scalesTo_mul hlt hk
  · have hneg : -(k.natAbs : ℤ) = k := by omega
    refine ⟨nearest c / nearest (10 ^ k.natAbs), hcount.1, ?_, ?_, hcount.2⟩
    · have hsize : Decimal.size ⟨c, k⟩ = c / 10 ^ k.natAbs := by
        rw [Decimal.size, ← zpow_natCast, div_eq_mul_inv, ← zpow_neg, hneg]
      rw [hsize]
      exact (hword.div_right (hpower.pos hten)).trans
        (hpower.div_left (hpower.pos hten) hten hword')
    · have hdiv := scalesTo_div hlt (j := k.natAbs) (by omega) hk
      rwa [hneg] at hdiv

/-! ### Two pieces -/

/-- The greatest power of ten. -/
theorem nearest_ten_pow_greatest :
    nearest (10 ^ greatestTenExponent) = 5010420900022432 * 2 ^ (971 : ℤ) := by
  have hbits : tenTo greatestTenExponent = Float.ofBits 0x7fe1ccf385ebc8a0 := by decide +kernel
  have hunpacked : unpacked (Float.ofBits 0x7fe1ccf385ebc8a0) =
      .finite .positive 5010420900022432 971 (by norm_num) := by rfl
  have hsize := hasSize_tenTo le_rfl
  rw [hbits] at hsize
  exact_mod_cast hsize.unique (.finite hunpacked)

/-- The greatest power of ten is exact up to a tenth of a rounding. -/
theorem withinFactor_ten_pow_greatest :
    WithinFactor (1 + roundoff * (1 / 10)) (nearest (10 ^ greatestTenExponent))
      (10 ^ greatestTenExponent) := by
  have hlow : (10 : ℚ) ^ 308 ≤ 5010420900022432 * 2 ^ 971 := by
    exact_mod_cast (by decide +kernel : 10 ^ 308 ≤ 5010420900022432 * 2 ^ 971)
  have hhigh : (5010420900022432 * 2 ^ 971 : ℚ) * (10 * 2 ^ 53) ≤ 10 ^ 308 * (10 * 2 ^ 53 + 1) := by
    exact_mod_cast (by decide +kernel :
      5010420900022432 * 2 ^ 971 * (10 * 2 ^ 53) ≤ 10 ^ 308 * (10 * 2 ^ 53 + 1))
  have hroundoff : roundoff = 1 / 2 ^ 53 := by norm_num [roundoff]
  have hpow : (2 : ℚ) ^ (971 : ℤ) = 2 ^ 971 := zpow_natCast 2 971
  rw [nearest_ten_pow_greatest, hroundoff, hpow]
  change WithinFactor _ _ ((10 : ℚ) ^ 308)
  generalize (10 : ℚ) ^ 308 = exact at hlow hhigh ⊢
  generalize (5010420900022432 * 2 ^ 971 : ℚ) = power at hlow hhigh ⊢
  constructor <;> linarith

/-- The greatest power of ten is not close to a power of two. -/
theorem nearest_ten_pow_greatest_eq_mul :
    nearest (10 ^ greatestTenExponent) = 5010420900022432 / 2 ^ 52 * 2 ^ (1023 : ℤ) := by
  rw [nearest_ten_pow_greatest, show (1023 : ℤ) = 52 + 971 by norm_num, zpow_add₀ two_ne_zero,
    ← mul_assoc, div_mul_eq_mul_div]
  norm_num

section Quotient

variable {exact power quotient word : ℚ} {a b : ℤ}

/-- A word is off by less than a rounding, if it is not at the start of its binade. It is not if its
quotient is in the upper one of two binades. -/
theorem withinFactor_word (hpower : power = 5010420900022432 / 2 ^ 52 * 2 ^ (1023 : ℤ))
    (hword : 0 < word) (hplace : 2 ^ b ≤ word / power) (hle : a ≤ b + 1023)
    (herror : |word - exact| ≤ roundoff * 2 ^ a) (hnear : WithinFactor (1 + roundoff) word exact) :
    WithinFactor (1 + roundoff * (8995 / 10000)) word exact := by
  have hsmall : (2 : ℚ) ^ a ≤ word * (899 / 1000) := by
    calc (2 : ℚ) ^ a ≤ 2 ^ (b + 1023) := zpow_le_zpow_right₀ one_le_two hle
      _ = 2 ^ b * 2 ^ (1023 : ℤ) := zpow_add₀ two_ne_zero b 1023
      _ ≤ word / power * 2 ^ (1023 : ℤ) :=
          mul_le_mul_of_nonneg_right hplace (zpow_pos two_pos _).le
      _ = word * (2 ^ 52 / 5010420900022432) := by
          rw [hpower]
          field_simp
      _ ≤ word * (899 / 1000) := mul_le_mul_of_nonneg_left (by norm_num) hword.le
  have hmore := hnear.1
  have hroundoff : roundoff = 1 / 2 ^ 53 := by norm_num [roundoff]
  rw [hroundoff] at hmore herror ⊢
  exact .of_abs_le herror (by linarith) (by linarith)

/-- The quotient is off by less than a rounding in the lower one. -/
theorem withinFactor_quotient (hpower : power = 5010420900022432 / 2 ^ 52 * 2 ^ (1023 : ℤ))
    (hword : 0 < word) (hplace : 2 ^ a ≤ word) (hlt : b + 1023 < a)
    (herror : |quotient - word / power| ≤ roundoff * 2 ^ b)
    (hnear : WithinFactor (1 + roundoff) quotient (word / power)) :
    WithinFactor (1 + roundoff * (6 / 10)) quotient (word / power) := by
  have hunits : 0 < word / power := by
    rw [hpower]
    positivity
  have hsmall : (2 : ℚ) ^ b ≤ word / power * (56 / 100) := by
    calc (2 : ℚ) ^ b ≤ 2 ^ (a + -1024) := zpow_le_zpow_right₀ one_le_two (by omega)
      _ = 2 ^ a * 2 ^ (-1024 : ℤ) := zpow_add₀ two_ne_zero a _
      _ ≤ word * 2 ^ (-1024 : ℤ) := mul_le_mul_of_nonneg_right hplace (by positivity)
      _ = word / power * (5010420900022432 / 2 ^ 53) := by
          rw [hpower, show (-1024 : ℤ) = -1 + -1023 by norm_num, zpow_add₀ two_ne_zero,
            zpow_neg 2 1023]
          field_simp
      _ ≤ word / power * (56 / 100) :=
          mul_le_mul_of_nonneg_left (by norm_num) hunits.le
  have hless := hnear.2
  have hroundoff : roundoff = 1 / 2 ^ 53 := by norm_num [roundoff]
  rw [hroundoff] at hless herror ⊢
  generalize word / power = units at *
  exact .of_abs_le herror (by linarith) (by linarith)

end Quotient

/-- The quotient of a word by the greatest power of ten is within two roundings of the exact one
after it was rounded. If the word is as far off as a rounding can be, then the quotient is not, as
the power of ten is not close to a power of two. -/
theorem within_quotient (hc : 0 < c)
    (hnormal : 2 ^ (-1022 : ℤ) ≤ nearest c / nearest (10 ^ greatestTenExponent)) :
    Within 2 (nearest (nearest c / nearest (10 ^ greatestTenExponent)))
      (c / 10 ^ greatestTenExponent) := by
  have hexact : (0 : ℚ) < 10 ^ greatestTenExponent := by positivity
  have hone : (1 : ℚ) ≤ c := by exact_mod_cast hc
  have hword : Within 1 (nearest c) c := within_nearest (normal_of_one_le hone)
  have hquotient := within_nearest hnormal
  have hfirst : 0 < nearest (c : ℚ) := hword.pos (one_pos.trans_le hone)
  have hpos : 0 < nearest (10 ^ greatestTenExponent) := by
    rw [nearest_ten_pow_greatest_eq_mul]
    positivity
  rw [Within, pow_one] at hword hquotient
  obtain ⟨f, g, hf, hg, hfactor, hwordfactor, hquotientfactor⟩ : ∃ f g : ℚ, 0 ≤ f ∧ 0 ≤ g ∧
      g * f * (1 + roundoff * (1 / 10)) ≤ (1 + roundoff) ^ 2 ∧ WithinFactor f (nearest c) c ∧
      WithinFactor g (nearest (nearest c / nearest (10 ^ greatestTenExponent)))
        (nearest c / nearest (10 ^ greatestTenExponent)) := by
    rcases le_or_gt (lastPlace (c : ℚ) + 52)
      (lastPlace (nearest c / nearest (10 ^ greatestTenExponent)) + 52 + 1023) with hle | hlt
    · refine ⟨1 + roundoff * (8995 / 10000), 1 + roundoff, ?_, ?_, ?_,
        withinFactor_word nearest_ten_pow_greatest_eq_mul hfirst
          (two_zpow_lastPlace_le_of_normal hnormal) hle (abs_nearest_sub_le _) hword, hquotient⟩
      all_goals norm_num [roundoff]
    · have hplace : 2 ^ (lastPlace (c : ℚ) + 52) ≤ nearest (c : ℚ) :=
        (Representable.two_zpow (by have := neg_1074_le_lastPlace (c : ℚ); omega)).le_nearest
          (zero_le_one.trans hone) (two_zpow_lastPlace_le_of_normal (normal_of_one_le hone))
      refine ⟨1 + roundoff, 1 + roundoff * (6 / 10), ?_, ?_, ?_, hword,
        withinFactor_quotient nearest_ten_pow_greatest_eq_mul hfirst hplace hlt
          (abs_nearest_sub_le _) hquotient⟩
      all_goals norm_num [roundoff]
  have hsmall : 0 ≤ 1 + roundoff * (1 / 10) := by norm_num [roundoff]
  have hchain := hquotientfactor.trans ((hwordfactor.div_right hpos).trans
    (withinFactor_ten_pow_greatest.div_left hpos hexact (zero_le_one.trans hone)) hf hsmall) hg
      (mul_nonneg hf hsmall)
  rw [← mul_assoc] at hchain
  exact hchain.mono hfactor (nearest_nonneg (div_pos hfirst hpos).le) (by positivity)

/-- In two pieces a word is divided twice. -/
theorem scale_of_lt (hc : 0 < c) (hlt : c < wordCount) (hpos : 0 < j)
    (hj : j ≤ greatestTenExponent) :
    scale 3 c.toUInt64.toFloat (-(greatestTenExponent + j : ℕ)) =
      .ok (c.toUInt64.toFloat / tenTo greatestTenExponent / tenTo j) := by
  have hone : (1 : ℚ) ≤ c := by exact_mod_cast hc
  have hzero : ¬ (c.toUInt64.toFloat == 0) = true := by
    rw [(hasSize_word hlt).beq_iff hasSize_zero]
    exact_mod_cast (within_nearest (normal_of_one_le hone)).pos (one_pos.trans_le hone) |>.ne'
  have hrest : (-(greatestTenExponent + j : ℕ) : ℤ) + greatestTenExponent = -(j : ℤ) := by
    push_cast
    ring
  rw [scale, if_neg (by rw [Int.natAbs_neg, Int.natAbs_natCast]; omega), if_neg hzero,
    if_neg (by omega)]
  rw [hrest, scale, if_pos (by rwa [Int.natAbs_neg, Int.natAbs_natCast]), if_neg (by omega),
    Int.natAbs_neg, Int.natAbs_natCast]

/-- The first two words are so small that their quotients are not normal. They are read exactly. -/
theorem div_div_eq_toFloat (hc : c = 1 ∨ c = 2) (hpos : 0 < j) (hj : j ≤ 16) :
    c.toUInt64.toFloat / tenTo greatestTenExponent / tenTo j =
      Decimal.toFloat ⟨c, -(greatestTenExponent + j : ℕ)⟩ := by
  have hall : ∀ c : Fin 2, ∀ j : Fin 16,
      (c.val + 1).toUInt64.toFloat / tenTo greatestTenExponent / tenTo (j.val + 1) =
        Decimal.toFloat ⟨c.val + 1, -(greatestTenExponent + (j.val + 1) : ℕ)⟩ := by
    decide +kernel
  obtain ⟨i, rfl⟩ : ∃ i, j = i + 1 := ⟨j - 1, by omega⟩
  rcases hc with rfl | rfl
  · exact hall 0 ⟨i, by omega⟩
  · exact hall 1 ⟨i, by omega⟩

/-- In two pieces there are two roundings at most before the last one. -/
theorem exists_scalesTo_of_lt (hc : 0 < c) (hlt : c < wordCount) (hpos : 0 < j) (hj : j ≤ 16) :
    ∃ n q, n ≤ 2 ∧ Within n q (Decimal.size ⟨c, -(greatestTenExponent + j : ℕ)⟩) ∧
      ScalesTo c (-(greatestTenExponent + j : ℕ)) q := by
  have hsize : Decimal.size ⟨c, -(greatestTenExponent + j : ℕ)⟩ =
      c / 10 ^ greatestTenExponent / 10 ^ j := by
    rw [Decimal.size, zpow_neg, zpow_natCast, pow_add, ← div_eq_mul_inv, div_div]
  have hj' : j ≤ greatestTenExponent := hj.trans (by norm_num [greatestTenExponent])
  by_cases hfew : c = 1 ∨ c = 2
  · refine ⟨0, Decimal.size ⟨c, -(greatestTenExponent + j : ℕ)⟩, by norm_num, .refl 0 ?_,
      fun r hr => ⟨_, scale_of_lt hc hlt hpos hj', ?_⟩⟩
    · rw [hsize]
      positivity
    · rw [div_div_eq_toFloat hfew hpos hj, ← hr]
      exact hasSize_decimal _
  · have hthree : (3 : ℚ) ≤ c := by exact_mod_cast (by omega : 3 ≤ c)
    have hmost : (c : ℚ) ≤ 2 ^ 64 := by exact_mod_cast hlt.le
    have hword : 3 ≤ nearest (c : ℚ) :=
      (Representable.natCast (m := 3) (by norm_num)).le_nearest (Nat.cast_nonneg c) hthree
    have hword' : nearest (c : ℚ) ≤ 2 ^ 64 :=
      (Representable.two_pow 64).nearest_le (Nat.cast_nonneg c) hmost
    have hpower : 1 ≤ nearest (10 ^ greatestTenExponent) :=
      Representable.one.le_nearest (by positivity) (one_le_ten_pow _)
    have hnormal : 2 ^ (-1022 : ℤ) ≤ nearest c / nearest (10 ^ greatestTenExponent) := by
      rw [le_div_iff₀ (one_pos.trans_le hpower), nearest_ten_pow_greatest, mul_left_comm,
        ← zpow_add₀ two_ne_zero]
      exact le_trans (by norm_num) hword
    have hquotient : HasSize (c.toUInt64.toFloat / tenTo greatestTenExponent)
        (nearest (nearest c / nearest (10 ^ greatestTenExponent))) := by
      have hdiv := (hasSize_word hlt).div (hasSize_tenTo le_rfl) (one_pos.trans_le hpower)
      rwa [rounded_eq_nearest (n := 64) (by norm_num) (by positivity)
        ((div_le_self (zero_le_three.trans hword) hpower).trans hword')] at hdiv
    have hten : HasSize (tenTo j) ((10 ^ j : ℚ) : WithTop ℚ) := by
      have hsize := hasSize_tenTo hj'
      rwa [(representable_ten_pow (by omega)).nearest_eq] at hsize
    refine ⟨2, nearest (nearest c / nearest (10 ^ greatestTenExponent)) / 10 ^ j, le_rfl, ?_,
      fun r hr => ⟨_, scale_of_lt hc hlt hpos hj', ?_⟩⟩
    · rw [hsize]
      exact (within_quotient hc hnormal).div_right (by positivity)
    · rw [← hr]
      exact hquotient.div hten (by positivity)

/-- **A word that is scaled by a power of ten is within two roundings of the decimal before it is
rounded for the last time.** -/
theorem exists_scalesTo (hc : 0 < c) (hlt : c < wordCount) (hlow : -324 ≤ k) (hhigh : k ≤ 308) :
    ∃ n q, n ≤ 2 ∧ Within n q (Decimal.size ⟨c, k⟩) ∧ ScalesTo c k q ∧
      (-308 ≤ k → Representable c ∨ k.natAbs ≤ 22 → n ≤ 1) ∧
      (Representable c → k.natAbs ≤ 22 → n = 0) := by
  by_cases hk : k.natAbs ≤ greatestTenExponent
  · obtain ⟨n, q, hn, hwithin, hscales, hone, hzero⟩ := exists_scalesTo_of_le hc hlt hk
    exact ⟨n, q, hn, hwithin, hscales, fun _ => hone, hzero⟩
  · have hlarge : 308 < k.natAbs := not_le.mp hk
    obtain ⟨j, rfl⟩ : ∃ j : ℕ, k = -(greatestTenExponent + j : ℕ) :=
      ⟨k.natAbs - 308, by rw [greatestTenExponent]; omega⟩
    rw [greatestTenExponent] at hlarge hlow
    obtain ⟨n, q, hn, hwithin, hscales⟩ :=
      exists_scalesTo_of_lt (j := j) hc hlt (by omega) (by omega)
    exact ⟨n, q, hn, hwithin, hscales, by rw [greatestTenExponent]; omega,
      by rw [greatestTenExponent]; omega⟩

end FlowControl.Json.Numeral
