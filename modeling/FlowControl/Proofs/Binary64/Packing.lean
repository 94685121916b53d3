import FlowControl.Proofs.Binary64.Unpacked

/-!
# Packed and unpacked floats

A binary64 number is its bits, and the model works on what it unpacks from their three fields.
What is unpacked from a packed result is the result itself, or an infinity if it is too large.
-/

namespace FlowControl.Binary64

open Float.Model Float.Model.UnpackedFloat

/-- The sign of a bit pattern. -/
def signOf (b : BitVec 64) : Sign := .ofBitVec (@unpackSign Format.binary64 b)

/-- The exponent field of a bit pattern. -/
def exponentOf (b : BitVec 64) : BitVec 11 := @unpackExponent Format.binary64 b

/-- The fraction field of a bit pattern. -/
def fractionOf (b : BitVec 64) : BitVec 52 := @unpackMantissa Format.binary64 b

/-- The bit pattern with the given fields. -/
def ofFields (sign : Sign) (exponent : BitVec 11) (fraction : BitVec 52) : BitVec 64 :=
  packComponents Format.binary64 sign exponent fraction

variable {sign : Sign} {exponent : BitVec 11} {fraction : BitVec 52}

/-- The sign of packed fields is the one that was packed. -/
@[simp] theorem signOf_ofFields : signOf (ofFields sign exponent fraction) = sign := by
  rw [signOf, ofFields, unpackSign_packComponents, Sign.ofBitVec_toBitVec]

/-- The exponent of packed fields is the one that was packed. -/
@[simp] theorem exponentOf_ofFields : exponentOf (ofFields sign exponent fraction) = exponent :=
  unpackExponent_packComponents

/-- The fraction of packed fields is the one that was packed. -/
@[simp] theorem fractionOf_ofFields : fractionOf (ofFields sign exponent fraction) = fraction :=
  unpackMantissa_packComponents

/-- What is unpacked from a bit pattern, by its fields. A fraction alone is in units of the least
last place, and a normal significand is a fraction with a one in front. -/
theorem unpack_eq (b : BitVec 64) :
    UnpackedFloat.unpack Format.binary64 b =
      if exponentOf b = 2047#11 then
        if fractionOf b = 0#52 then .infinity (signOf b) else .notANumber
      else if exponentOf b = 0#11 then
        if h : fractionOf b = 0#52 then .zero (signOf b)
        else .finite (signOf b) (fractionOf b).toNat (-1074)
          (by simpa [BitVec.toNat_pos, BitVec.pos_iff_ne_zero])
      else
        .finite (signOf b) (2 ^ 52 + (fractionOf b).toNat) ((exponentOf b).toNat - 1075)
          (by omega) := by
  have hbias : ((Format.binary64.exponentBias : ℤ) + (52 : ℕ)) = 1075 := by
    norm_num [Format.exponentBias]
  have hnormal : (1#1 ++ fractionOf b).toNat = 2 ^ 52 + (fractionOf b).toNat := by
    rw [BitVec.toNat_append, ← Nat.shiftLeft_add_eq_or_of_lt (fractionOf b).isLt,
      Nat.shiftLeft_eq]
    rfl
  by_cases hmost : exponentOf b = 2047#11
  · by_cases hfrac : fractionOf b = 0#52
    · rw [if_pos hmost, if_pos hfrac]
      exact (if_pos hmost).trans (if_pos hfrac)
    · rw [if_pos hmost, if_neg hfrac]
      exact (if_pos hmost).trans (if_neg hfrac)
  rw [if_neg hmost]
  refine (if_neg hmost).trans ?_
  by_cases hleast : exponentOf b = 0#11
  · rw [if_pos hleast]
    refine (if_pos hleast).trans ?_
    by_cases hfrac : fractionOf b = 0#52
    · rw [dif_pos hfrac]
      exact dif_pos hfrac
    · rw [dif_neg hfrac]
      refine (dif_neg hfrac).trans ?_
      have hexponent : (@unpackExponent Format.binary64 b).toNat = 0 := congrArg BitVec.toNat hleast
      congr 1
      simp only [hexponent, hbias]
      norm_num
  · rw [if_neg hleast]
    refine (if_neg hleast).trans ?_
    congr 1

/-- Finite numbers are equal when their fields are. -/
private theorem finite_congr {m₁ m₂ : ℕ} {e₁ e₂ : ℤ} {h₁ : 0 < m₁} {h₂ : 0 < m₂} (hm : m₁ = m₂)
    (he : e₁ = e₂) : UnpackedFloat.finite sign m₁ e₁ h₁ = .finite sign m₂ e₂ h₂ := by
  subst hm he
  rfl

/-- The exponent field of a normal number is neither the least nor the greatest one. -/
theorem exponent_bounds (hmost : exponent ≠ 2047#11) (hleast : exponent ≠ 0#11) :
    0 < exponent.toNat ∧ exponent.toNat < 2047 := by
  have hlt := exponent.isLt
  have hlow : exponent.toNat ≠ 0 := by
    intro hzero
    exact hleast (BitVec.eq_of_toNat_eq hzero)
  have hhigh : exponent.toNat ≠ 2047 := by
    intro heq
    exact hmost (BitVec.eq_of_toNat_eq heq)
  omega

/-- A normal number is unpacked from its fields. -/
theorem unpack_normal (hmost : exponent ≠ 2047#11) (hleast : exponent ≠ 0#11) :
    UnpackedFloat.unpack Format.binary64 (ofFields sign exponent fraction) =
      .finite sign (2 ^ 52 + fraction.toNat) (exponent.toNat - 1075) (by omega) := by
  simp only [unpack_eq, exponentOf_ofFields, fractionOf_ofFields, signOf_ofFields, if_neg hmost,
    if_neg hleast]

/-- A subnormal number is unpacked from its fields. -/
theorem unpack_subnormal (hfraction : fraction ≠ 0#52) :
    UnpackedFloat.unpack Format.binary64 (ofFields sign 0#11 fraction) =
      .finite sign fraction.toNat (-1074)
        (by simpa [BitVec.toNat_pos, BitVec.pos_iff_ne_zero]) := by
  have hmost : (0#11 : BitVec 11) ≠ 2047#11 := by decide
  simp only [unpack_eq, exponentOf_ofFields, fractionOf_ofFields, signOf_ofFields, if_neg hmost,
    dif_neg hfraction, ↓reduceIte]

/-- The significand of a finite number other than zero fills 53 bits, unless its last place is
the least one. -/
theorem canonical_of_unpack {b : BitVec 64} {m : ℕ} {e : ℤ} {hm : 0 < m}
    (h : UnpackedFloat.unpack Format.binary64 b = .finite sign m e hm) : Canonical m e := by
  rw [unpack_eq] at h
  have hfraction := (fractionOf b).isLt
  have hexponent := (exponentOf b).isLt
  split_ifs at h with hmost _ hleast _
  · obtain ⟨rfl, rfl, rfl⟩ := UnpackedFloat.finite.inj h
    exact ⟨by omega, le_rfl, by norm_num, Or.inr rfl⟩
  · obtain ⟨rfl, rfl, rfl⟩ := UnpackedFloat.finite.inj h
    obtain ⟨hlow, hhigh⟩ := exponent_bounds hmost hleast
    exact ⟨by omega, by omega, by omega, Or.inl (by omega)⟩

/-- How a finite number other than zero is packed. -/
theorem pack_finite {m : ℕ} {e : ℤ} {hm : 0 < m} :
    UnpackedFloat.pack Format.binary64 (.finite sign m e hm) =
      if 2047 ≤ (e + 1075).toNat then ofFields sign 2047#11 0#52
      else if m.log2 = 52 then ofFields sign (.ofNat 11 (e + 1075).toNat) (.ofNat 52 m)
      else ofFields sign 0#11 (.ofNat 52 m) := by
  have hbiased : (e + Format.binary64.exponentBias + (52 : ℕ)).toNat = (e + 1075).toNat := by
    norm_num [Format.exponentBias]
    congr 1
    ring
  have hbits : m.log2 + 1 = Format.binary64.mantissaBits ↔ m.log2 = 52 := by
    have : Format.binary64.mantissaBits = 53 := rfl
    omega
  have hlarge : 2 ^ 11 ≤ (e + 1075).toNat + 1 ↔ 2047 ≤ (e + 1075).toNat := by omega
  simp only [UnpackedFloat.pack, hbiased, hbits, hlarge]
  rfl

/-- A normal number is unpacked from what it is packed to. -/
theorem unpack_pack_normal {m : ℕ} {e : ℤ} {hm : 0 < m} (hlog : m.log2 = 52) (hlow : -1074 ≤ e)
    (hhigh : e ≤ 971) :
    UnpackedFloat.unpack Format.binary64
        (UnpackedFloat.pack Format.binary64 (.finite sign m e hm)) =
      .finite sign m e hm := by
  have hbounds := (Nat.log2_eq_iff hm.ne').mp hlog
  have hexponent : (BitVec.ofNat 11 (e + 1075).toNat).toNat = (e + 1075).toNat := by
    rw [BitVec.toNat_ofNat]
    omega
  have hfraction : (BitVec.ofNat 52 m).toNat = m - 2 ^ 52 := by
    rw [BitVec.toNat_ofNat]
    omega
  have hmost : BitVec.ofNat 11 (e + 1075).toNat ≠ 2047#11 := by
    intro heq
    rw [heq, BitVec.toNat_ofNat] at hexponent
    omega
  have hleast : BitVec.ofNat 11 (e + 1075).toNat ≠ 0#11 := by
    intro heq
    rw [heq, BitVec.toNat_ofNat] at hexponent
    omega
  rw [pack_finite, if_neg (by omega), if_pos hlog, unpack_normal hmost hleast, finite_congr]
  · rw [hfraction]
    omega
  · rw [hexponent]
    omega

/-- A subnormal number is unpacked from what it is packed to. -/
theorem unpack_pack_subnormal {m : ℕ} {hm : 0 < m} (hlt : m < 2 ^ 52) :
    UnpackedFloat.unpack Format.binary64
        (UnpackedFloat.pack Format.binary64 (.finite sign m (-1074) hm)) =
      .finite sign m (-1074) hm := by
  have hlog : m.log2 ≠ 52 := by
    have := (Nat.log2_lt hm.ne').mpr hlt
    omega
  have hfraction : (BitVec.ofNat 52 m).toNat = m := by
    rw [BitVec.toNat_ofNat]
    omega
  have hnonzero : BitVec.ofNat 52 m ≠ 0#52 := by
    intro heq
    rw [heq, BitVec.toNat_ofNat] at hfraction
    omega
  rw [pack_finite, if_neg (by norm_num), if_neg hlog, unpack_subnormal hnonzero,
    finite_congr hfraction rfl]

/-- What is packed is unpacked again. -/
theorem unpack_pack {m : ℕ} {e : ℤ} {hm : 0 < m} (h : Canonical m e) :
    UnpackedFloat.unpack Format.binary64
        (UnpackedFloat.pack Format.binary64 (.finite sign m e hm)) =
      .finite sign m e hm := by
  by_cases hle : 2 ^ 52 ≤ m
  · exact unpack_pack_normal ((Nat.log2_eq_iff hm.ne').mpr ⟨hle, h.lt⟩) h.least_le h.le_most
  · obtain rfl : e = -1074 := h.normal.resolve_left hle
    exact unpack_pack_subnormal (by omega)

/-- A number that is too large is packed as an infinity. -/
theorem pack_of_lt {m : ℕ} {e : ℤ} {hm : 0 < m} (h : 971 < e) :
    UnpackedFloat.pack Format.binary64 (.finite sign m e hm) =
      UnpackedFloat.pack Format.binary64 (.infinity sign) := by
  rw [pack_finite, if_pos (by omega)]
  rfl

/-- The zeros are unpacked from what they are packed to. -/
theorem unpack_pack_zero :
    UnpackedFloat.unpack Format.binary64 (UnpackedFloat.pack Format.binary64 (.zero sign)) =
      .zero sign :=
  unpack_packedZero

/-- The infinities are unpacked from what they are packed to. -/
theorem unpack_pack_infinity :
    UnpackedFloat.unpack Format.binary64 (UnpackedFloat.pack Format.binary64 (.infinity sign)) =
      .infinity sign := by
  cases sign <;> rfl

/-- The sign bit is the highest one. -/
theorem signOf_eq_positive_iff {b : BitVec 64} : signOf b = .positive ↔ b.toNat < 2 ^ 63 := by
  have hbit : @unpackSign Format.binary64 b = 0#1 ↔ b.toNat < 2 ^ 63 := by
    rw [← BitVec.toNat_inj]
    simp [unpackSign, Nat.shiftRight_eq_div_pow]
    omega
  rw [← hbit, signOf, Sign.ofBitVec]
  split <;> simp_all

end FlowControl.Binary64
