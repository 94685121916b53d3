import FlowControl.Proofs.Binary64.Relative
import FlowControl.Proofs.Decimal.Shortest

/-!
# Places

The numbers of one sign are in the order of their bits, so the bits of two numbers tell how many
places one of them is from the other. A number that is computed lies at most as many places from
another one as it was rounded in between, if rounding it for the last time is not counted.
-/

namespace FlowControl.Binary64

open Float.Model Float.Model.UnpackedFloat

/-- How many places the bits of two numbers are apart. -/
def places (x y : Float) : ℕ := ((x.toBits.toNat : ℤ) - y.toBits.toNat).natAbs

/-- The sign bit in its place. -/
def signBit : Sign → ℕ
  | .positive => 0
  | .negative => 2 ^ 63

variable {x y : Float} {sign : Sign} {m n : ℕ} {e : ℤ} {hm : 0 < m} {q : ℚ}

/-- A bit pattern by its sign, its exponent and its fraction. -/
theorem toNat_eq_of_fields (b : BitVec 64) :
    b.toNat = signBit (signOf b) + ((exponentOf b).toNat * 2 ^ 52 + (fractionOf b).toNat) := by
  have hexponent : (exponentOf b).toNat = b.toNat / 2 ^ 52 % 2 ^ 11 := by
    simp [exponentOf, unpackExponent, Nat.shiftRight_eq_div_pow]
  have hfraction : (fractionOf b).toNat = b.toNat % 2 ^ 52 := by
    simp [fractionOf, unpackMantissa]
  have hsign : signBit (signOf b) = b.toNat / 2 ^ 63 * 2 ^ 63 := by
    have hlt := b.isLt
    by_cases hpositive : b.toNat < 2 ^ 63
    · rw [signOf_eq_positive_iff.mpr hpositive, signBit]
      omega
    · have hnegative : signOf b = .negative := by
        cases hs : signOf b with
        | positive => exact absurd (signOf_eq_positive_iff.mp hs) hpositive
        | negative => rfl
      rw [hnegative, signBit]
      omega
  rw [hexponent, hfraction, hsign]
  have hlt := b.isLt
  omega

/-- The bits of a zero are its sign bit. -/
theorem toBits_of_zero (h : unpacked x = .zero sign) : x.toBits.toNat = signBit sign := by
  have hbits : x.toBits.toNat = x.toModel.toBits.toBitVec.toNat := rfl
  have hunpack : unpacked x = _ := unpack_eq x.toModel.toBits.toBitVec
  rw [hbits, toNat_eq_of_fields]
  generalize x.toModel.toBits.toBitVec = b at hunpack ⊢
  rw [h] at hunpack
  split_ifs at hunpack with hmost hinfinite hleast hzero
  obtain rfl := UnpackedFloat.zero.inj hunpack
  rw [hleast, hzero]
  rfl

/-- The bits of a number count the magnitudes below it, behind its sign. -/
theorem toBits_of_finite (h : unpacked x = .finite sign m e hm) :
    x.toBits.toNat = signBit sign + ((e + 1074).toNat * 2 ^ 52 + m) := by
  have hbits : x.toBits.toNat = x.toModel.toBits.toBitVec.toNat := rfl
  have hunpack : unpacked x = _ := unpack_eq x.toModel.toBits.toBitVec
  rw [hbits, toNat_eq_of_fields]
  generalize x.toModel.toBits.toBitVec = b at hunpack ⊢
  rw [h] at hunpack
  split_ifs at hunpack with hmost hinfinite hleast hzero
  · obtain ⟨rfl, rfl, rfl⟩ := UnpackedFloat.finite.inj hunpack
    rw [hleast]
    rfl
  · obtain ⟨rfl, rfl, rfl⟩ := UnpackedFloat.finite.inj hunpack
    obtain ⟨hlow, -⟩ := exponent_bounds hmost hleast
    omega

/-- A number has only one significand and one last place. -/
theorem Canonical.unique {f : ℤ} (h : Canonical m e) (h' : Canonical n f)
    (heq : (m : ℚ) * 2 ^ e = n * 2 ^ f) : m = n ∧ e = f := by
  rcases lt_trichotomy e f with hlt | rfl | hlt
  · exact absurd heq (h.mul_two_zpow_lt h' hlt).ne
  · exact ⟨by exact_mod_cast mul_right_cancel₀ (zpow_pos two_pos e).ne' heq, rfl⟩
  · exact absurd heq.symm (h'.mul_two_zpow_lt h hlt).ne

/-- The bits of a canonical number are its significand and, in units of `2 ^ 52`, how far its last
place is above the least one. -/
theorem Canonical.toBits_eq (h : Canonical m e)
    (hx : HasSize x ((m * 2 ^ e : ℚ) : WithTop ℚ)) :
    x.toBits.toNat = (e + 1074).toNat * 2 ^ 52 + m := by
  rcases hx.zero_or_finite with ⟨hzero, heq⟩ | ⟨m', e', hm', hfinite, hcanonical, heq⟩
  · have hm : m = 0 := by
      have := (mul_eq_zero.mp heq).resolve_right (zpow_pos two_pos e).ne'
      exact_mod_cast this
    obtain rfl : e = -1074 := h.normal.resolve_left (by omega)
    rw [toBits_of_zero hzero, signBit, hm]
    rfl
  · obtain ⟨rfl, rfl⟩ := h.unique hcanonical heq
    rw [toBits_of_finite hfinite, signBit, Nat.zero_add]

/-- The bits of a number by its significand and its last place. The significand may be the one from
which on the last place is the next one. -/
theorem HasSize.toBits_eq (hx : HasSize x ((m * 2 ^ e : ℚ) : WithTop ℚ)) (hle : m ≤ 2 ^ 53)
    (hleast : -1074 ≤ e) (hnormal : 2 ^ 52 ≤ m ∨ e = -1074) :
    x.toBits.toNat = (e + 1074).toNat * 2 ^ 52 + m := by
  have hlarge {k : ℕ} {f : ℤ} (hk : 2 ^ 52 ≤ k)
      (hsize : HasSize x ((k * 2 ^ f : ℚ) : WithTop ℚ)) : f ≤ 971 := by
    by_contra hlt
    exact absurd hsize.lt_two_pow (not_lt.mpr (two_pow_le_of_lt hk (not_le.mp hlt)))
  rcases hle.lt_or_eq with hlt | rfl
  · refine Canonical.toBits_eq ⟨hlt, hleast, ?_, hnormal⟩ hx
    rcases hnormal with hnormal | rfl
    · exact hlarge hnormal hx
    · norm_num
  · have hcarry : ((2 ^ 53 : ℕ) * 2 ^ e : ℚ) = (2 ^ 52 : ℕ) * 2 ^ (e + 1) := by
      rw [zpow_add_one₀ two_ne_zero]
      push_cast
      ring
    rw [hcarry] at hx
    rw [Canonical.toBits_eq ⟨by norm_num, by omega, hlarge le_rfl hx, Or.inl le_rfl⟩ hx]
    omega

/-- Behind a sign the bits are those of the absolute value. -/
theorem HasSize.toBits_neg {p : ℚ} (hx : HasSize x p) :
    (-x).toBits.toNat = 2 ^ 63 + x.toBits.toNat := by
  have hneg := unpacked_neg x
  rcases hx.zero_or_finite with ⟨hzero, -⟩ | ⟨m, e, hm, hfinite, -, -⟩
  · rw [hzero] at hneg
    rw [toBits_of_zero hzero, toBits_of_zero hneg]
    rfl
  · rw [hfinite] at hneg
    rw [toBits_of_finite hfinite, toBits_of_finite hneg, signBit, Nat.zero_add]
    rfl

/-- Numbers are as far apart as their absolute values. -/
theorem HasSize.places_neg {p q : ℚ} (hx : HasSize x p) (hy : HasSize y q) :
    places (-x) (-y) = places x y := by
  rw [places, places, hx.toBits_neg, hy.toBits_neg]
  omega

/-- What is rounded in units of the last place `e` has this last place, or it carries to the next
one. -/
theorem exists_toBits_eq (hq : 0 < q) (hleast : -1074 ≤ e)
    (hlow : 2 ^ 52 ≤ q / 2 ^ e ∨ e = -1074) (hhigh : q / 2 ^ e < 2 ^ 53)
    (hy : HasSize y (nearest q)) :
    ∃ k : ℕ, y.toBits.toNat = (e + 1074).toNat * 2 ^ 52 + k ∧ k ≤ q / 2 ^ e + 1 / 2 ∧
      q / 2 ^ e - 1 / 2 ≤ k ∧ (2 ^ 52 ≤ q / 2 ^ e → 2 ^ 52 ≤ k) := by
  have hunits : 0 ≤ q / 2 ^ e := div_nonneg hq.le (zpow_pos two_pos e).le
  have hnonneg : 0 ≤ nearestInt (q / 2 ^ e) := by
    have := nearestInt_mono hunits
    rwa [← Int.cast_zero, nearestInt_intCast] at this
  have hmost : nearestInt (q / 2 ^ e) ≤ 2 ^ 53 := by
    have := nearestInt_mono hhigh.le
    rwa [← Int.cast_two, ← Int.cast_pow, nearestInt_intCast] at this
  have hnormal : 2 ^ 52 ≤ q / 2 ^ e → 2 ^ 52 ≤ nearestInt (q / 2 ^ e) := by
    intro h
    have := nearestInt_mono h
    rwa [← Int.cast_two, ← Int.cast_pow, nearestInt_intCast] at this
  obtain ⟨hmore, hless⟩ := abs_le.mp (abs_nearestInt_sub_le (q / 2 ^ e))
  rw [nearest_eq_of_scaled hq hleast hlow hhigh rfl] at hy
  generalize nearestInt (q / 2 ^ e) = i at hy hnonneg hmost hnormal hmore hless
  obtain ⟨k, rfl⟩ := Int.eq_ofNat_of_zero_le hnonneg
  push_cast at hy hmore hless
  refine ⟨k, hy.toBits_eq (by omega) hleast ?_, by linarith, by linarith, fun h => ?_⟩
  · exact hlow.imp_left fun h => by exact_mod_cast hnormal h
  · exact_mod_cast hnormal h

/-- A number that is rounded at the end lies at most `n` places from another one, if the exact
result is less than half a place more than `n` places away from that one. Below a power of two the
places are half as long. -/
theorem places_le {n : ℕ} (hx : unpacked x = .finite .positive m e hm) (hq : 0 < q)
    (hy : HasSize y (nearest q)) (hlow : m - 1 / 2 - n < q / 2 ^ e)
    (hhigh : q / 2 ^ e < m + 1 / 2 + n)
    (hbelow : q / 2 ^ e < 2 ^ 52 → e ≠ -1074 →
      m - 3 / 4 - n / 2 < q / 2 ^ e ∧ (m = 2 ^ 52 → m - 1 / 4 - n / 2 < q / 2 ^ e))
    (hn : n ≤ 2) : places x y ≤ n := by
  obtain ⟨hlt, hleast, -, hnormal⟩ := canonical_of_unpacked hx
  have hbits : x.toBits.toNat = (e + 1074).toNat * 2 ^ 52 + m := by
    rw [toBits_of_finite hx, signBit, Nat.zero_add]
  have hn' : (n : ℚ) ≤ 2 := by exact_mod_cast hn
  have hlt' : (m : ℚ) + 1 ≤ 2 ^ 53 := by exact_mod_cast hlt
  unfold places
  by_cases hcarry : 2 ^ 53 ≤ q / 2 ^ e
  · -- the result has the next last place
    have hdouble : q / 2 ^ (e + 1) = q / 2 ^ e / 2 := by
      rw [zpow_add_one₀ two_ne_zero, div_div]
    obtain ⟨k, hk, hmore, hless, hkeep⟩ := exists_toBits_eq (e := e + 1) hq (by omega)
      (Or.inl (by rw [hdouble]; linarith)) (by rw [hdouble]; linarith) hy
    rw [hdouble] at hmore hkeep
    have hkeep' := hkeep (by linarith)
    have hsum : (2 ^ 53 : ℚ) < m + n + 1 := by linarith
    have htwice : (2 * k : ℚ) < m + n + 2 := by linarith
    have hsum' : 2 ^ 53 < m + n + 1 := by exact_mod_cast hsum
    have htwice' : 2 * k < m + n + 2 := by exact_mod_cast htwice
    omega
  · rw [not_le] at hcarry
    by_cases hsame : 2 ^ 52 ≤ q / 2 ^ e ∨ e = -1074
    · -- the result has the same last place
      obtain ⟨k, hk, hmore, hless, -⟩ := exists_toBits_eq hq hleast hsame hcarry hy
      have habove : (k : ℚ) < m + n + 1 := by linarith
      have hunder : (m : ℚ) < k + n + 1 := by linarith
      have habove' : k < m + n + 1 := by exact_mod_cast habove
      have hunder' : m < k + n + 1 := by exact_mod_cast hunder
      omega
    · -- the result has the last place before, and its places are half as long
      obtain ⟨hsmall, hplace⟩ := not_or.mp hsame
      rw [not_le] at hsmall
      have hhalf : q / 2 ^ (e - 1) = 2 * (q / 2 ^ e) := by
        rw [zpow_sub_one₀ two_ne_zero]
        field_simp
      have hnormal' := hnormal.resolve_right hplace
      have hnormal'' : (2 : ℚ) ^ 52 ≤ m := by exact_mod_cast hnormal'
      obtain ⟨hnear, hpower⟩ := hbelow hsmall hplace
      obtain ⟨k, hk, hmore, hless, -⟩ := exists_toBits_eq (e := e - 1) hq (by omega)
        (Or.inl (by rw [hhalf]; linarith)) (by rw [hhalf]; linarith) hy
      rw [hhalf] at hmore hless
      have hmost : k < 2 ^ 53 + 1 := by
        have : (k : ℚ) < 2 ^ 53 + 1 := by linarith
        exact_mod_cast this
      by_cases hleast' : m = 2 ^ 52
      · have hunder : (2 * m : ℚ) < k + n + 1 := by linarith [hpower hleast']
        have hunder' : 2 * m < k + n + 1 := by exact_mod_cast hunder
        omega
      · have hunder : (2 * m : ℚ) < k + n + 2 := by linarith
        have hunder' : 2 * m < k + n + 2 := by exact_mod_cast hunder
        omega

end FlowControl.Binary64
