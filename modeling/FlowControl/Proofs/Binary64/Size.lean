import FlowControl.Decimal.Basic
import FlowControl.Proofs.Binary64.Packing

/-!
# The size of a number

The rates of a flow, the lengths of windows and all that is computed of them have a clear sign
bit. Such a number is told by its size, a rational or infinite: numbers of equal size are equal,
and numbers are compared as their sizes are.
-/

namespace FlowControl.Binary64

open Float.Model Float.Model.UnpackedFloat

/-- What a number is unpacked to. -/
def unpacked (x : Float) : UnpackedFloat := x.toModel.unpack

/-- A number with a clear sign bit has a size. One with its sign bit set has none, and neither
has what is not a number. -/
inductive HasSize (x : Float) : WithTop ℚ → Prop where
  | infinite (h : unpacked x = .infinity .positive) : HasSize x ⊤
  | zero (h : unpacked x = .zero .positive) : HasSize x 0
  | finite {m : ℕ} {e : ℤ} {hm : 0 < m} (h : unpacked x = .finite .positive m e hm) :
    HasSize x ((m * 2 ^ e : ℚ) : WithTop ℚ)

/-- The size of a rounded number: infinite if it is too large. -/
def rounded (q : ℚ) : WithTop ℚ := if nearest q < 2 ^ 1024 then nearest q else ⊤

/-- What is finite is below the power of two at which numbers become infinite. -/
theorem Canonical.lt_two_pow {m : ℕ} {e : ℤ} (h : Canonical m e) :
    (m : ℚ) * 2 ^ e < 2 ^ 1024 := by
  have hm : (m : ℚ) < 2 ^ (53 : ℤ) := by exact_mod_cast h.lt
  calc (m : ℚ) * 2 ^ e < 2 ^ (53 : ℤ) * 2 ^ e := mul_lt_mul_of_pos_right hm (zpow_pos two_pos e)
    _ = 2 ^ (53 + e) := (zpow_add₀ two_ne_zero 53 e).symm
    _ ≤ 2 ^ (1024 : ℤ) := zpow_le_zpow_right₀ one_le_two (by linarith [h.le_most])
    _ = 2 ^ 1024 := zpow_natCast 2 1024

/-- A significand of 53 bits with a last place that is too coarse. -/
theorem two_pow_le_of_lt {m : ℕ} {e : ℤ} (hm : 2 ^ 52 ≤ m) (he : 971 < e) :
    (2 : ℚ) ^ 1024 ≤ m * 2 ^ e := by
  have hm' : (2 : ℚ) ^ (52 : ℤ) ≤ m := by exact_mod_cast hm
  calc (2 : ℚ) ^ 1024 = 2 ^ (1024 : ℤ) := (zpow_natCast 2 1024).symm
    _ ≤ 2 ^ (52 + e) := zpow_le_zpow_right₀ one_le_two (by linarith)
    _ = 2 ^ (52 : ℤ) * 2 ^ e := zpow_add₀ two_ne_zero 52 e
    _ ≤ m * 2 ^ e := mul_le_mul_of_nonneg_right hm' (zpow_pos two_pos e).le

section Packing

variable {x y : Float} {sign : Sign}

/-- What is unpacked from a packed result is what the model makes of it. -/
theorem unpacked_pack (u : UnpackedFloat) :
    unpacked (.ofModel (.pack u)) =
      UnpackedFloat.unpack Format.binary64 (UnpackedFloat.pack Format.binary64 u) := rfl

/-- Packing what is unpacked from a number gives the number back. -/
theorem pack_unpacked (x : Float) : .ofModel (.pack (unpacked x)) = x := by
  have hpack : Float.Model.pack (unpacked x) = x.toModel := by
    have hbits := pack_unpack_of_valid x.toModel.valid
    rw [Float.Model.mk.injEq]
    exact UInt64.toBitVec_inj.mp hbits
  rw [hpack]

/-- Numbers that unpack to the same are equal. -/
theorem eq_of_unpacked_eq (h : unpacked x = unpacked y) : x = y := by
  rw [← pack_unpacked x, h, pack_unpacked]

/-- What is unpacked from a finite number is canonical. -/
theorem canonical_of_unpacked {m : ℕ} {e : ℤ} {hm : 0 < m}
    (h : unpacked x = .finite sign m e hm) : Canonical m e :=
  canonical_of_unpack h

/-- A number that is rounded and packed has the size of what is rounded. -/
theorem hasSize_of_rounds {u : UnpackedFloat} {q : ℚ} (h : Rounds .positive q u) :
    HasSize (.ofModel (.pack u)) (rounded q) := by
  cases u with
  | notANumber => exact h.elim
  | infinity _ => exact h.elim
  | zero sign =>
    obtain ⟨rfl, hzero⟩ := h
    have hsize : rounded q = 0 := by
      rw [rounded, hzero, if_pos (by positivity)]
      rfl
    rw [hsize]
    exact .zero (by rw [unpacked_pack, unpack_pack_zero])
  | finite sign m e hm =>
    obtain ⟨rfl, hlt, hleast, hnormal, hvalue⟩ := h
    by_cases he : e ≤ 971
    · have hcanonical : Canonical m e := ⟨hlt, hleast, he, hnormal⟩
      rw [rounded, ← hvalue, if_pos hcanonical.lt_two_pow]
      exact .finite (by rw [unpacked_pack, unpack_pack hcanonical])
    · have hlarge := two_pow_le_of_lt (m := m) (e := e) (by omega) (by omega)
      rw [rounded, ← hvalue, if_neg (not_lt.mpr hlarge)]
      exact .infinite (by rw [unpacked_pack, pack_of_lt (by omega), unpack_pack_infinity])

end Packing

section Order

/-- Of two canonical numbers the one with the coarser last place is the larger. -/
theorem Canonical.mul_two_zpow_lt {m n : ℕ} {e f : ℤ} (h : Canonical m e) (h' : Canonical n f)
    (hlt : e < f) : (m : ℚ) * 2 ^ e < n * 2 ^ f := by
  have hm : (m : ℚ) < 2 ^ (53 : ℤ) := by exact_mod_cast h.lt
  have hn : (2 : ℚ) ^ (52 : ℤ) ≤ n := by
    have := h'.normal
    have := h.least_le
    exact_mod_cast (by omega : 2 ^ 52 ≤ n)
  calc (m : ℚ) * 2 ^ e < 2 ^ (53 : ℤ) * 2 ^ e := mul_lt_mul_of_pos_right hm (zpow_pos two_pos e)
    _ = 2 ^ (53 + e) := (zpow_add₀ two_ne_zero 53 e).symm
    _ ≤ 2 ^ (52 + f) := zpow_le_zpow_right₀ one_le_two (by omega)
    _ = 2 ^ (52 : ℤ) * 2 ^ f := zpow_add₀ two_ne_zero 52 f
    _ ≤ n * 2 ^ f := mul_le_mul_of_nonneg_right hn (zpow_pos two_pos f).le

/-- Canonical numbers are compared by their last places first. -/
theorem Canonical.compare_eq {m₁ m₂ : ℕ} {e₁ e₂ : ℤ} (h₁ : Canonical m₁ e₁)
    (h₂ : Canonical m₂ e₂) :
    (compare e₁ e₂).then (compare m₁ m₂) = compare ((m₁ : ℚ) * 2 ^ e₁) (m₂ * 2 ^ e₂) := by
  rcases lt_trichotomy e₁ e₂ with hlt | rfl | hgt
  · rw [compare_lt_iff_lt.mpr hlt, compare_lt_iff_lt.mpr (h₁.mul_two_zpow_lt h₂ hlt)]
    rfl
  · have hpos : (0 : ℚ) < 2 ^ e₁ := zpow_pos two_pos e₁
    rw [compare_eq_iff_eq.mpr rfl, Ordering.then]
    rcases lt_trichotomy m₁ m₂ with hm | rfl | hm
    · rw [compare_lt_iff_lt.mpr hm, eq_comm, compare_lt_iff_lt]
      exact mul_lt_mul_of_pos_right (by exact_mod_cast hm) hpos
    · rw [compare_eq_iff_eq.mpr rfl, compare_eq_iff_eq.mpr rfl]
    · rw [compare_gt_iff_gt.mpr hm, eq_comm, compare_gt_iff_gt]
      exact mul_lt_mul_of_pos_right (by exact_mod_cast hm) hpos
  · rw [compare_gt_iff_gt.mpr hgt, compare_gt_iff_gt.mpr (h₂.mul_two_zpow_lt h₁ hgt)]
    rfl

end Order

/-- Finite sizes are compared as rationals. -/
private theorem compare_coe (p q : ℚ) : compare (p : WithTop ℚ) q = compare p q := by
  rcases lt_trichotomy p q with hlt | rfl | hgt
  · rw [compare_lt_iff_lt.mpr hlt, compare_lt_iff_lt.mpr (WithTop.coe_lt_coe.mpr hlt)]
  · rw [compare_eq_iff_eq.mpr rfl, compare_eq_iff_eq.mpr rfl]
  · rw [compare_gt_iff_gt.mpr hgt, compare_gt_iff_gt.mpr (WithTop.coe_lt_coe.mpr hgt)]

namespace HasSize

variable {x y : Float} {s t : WithTop ℚ}

/-- Numbers are compared as their sizes are. -/
theorem compare_eq (hx : HasSize x s) (hy : HasSize y t) :
    UnpackedFloat.compare (unpacked x) (unpacked y) = some (compare s t) := by
  have hpos {m : ℕ} {e : ℤ} (hm : 0 < m) : (0 : WithTop ℚ) < ((m * 2 ^ e : ℚ) : WithTop ℚ) :=
    WithTop.coe_lt_coe.mpr (mul_pos (by exact_mod_cast hm) (zpow_pos two_pos e))
  have htop (q : ℚ) : (q : WithTop ℚ) < ⊤ := WithTop.coe_lt_top q
  have hzero : (0 : WithTop ℚ) < ⊤ := htop 0
  cases hx with
  | infinite hx =>
    cases hy with
    | infinite hy =>
      rw [hx, hy, compare_eq_iff_eq.mpr rfl]
      rfl
    | zero hy =>
      rw [hx, hy, compare_gt_iff_gt.mpr hzero]
      rfl
    | finite hy =>
      rw [hx, hy, compare_gt_iff_gt.mpr (htop _)]
      rfl
  | zero hx =>
    cases hy with
    | infinite hy =>
      rw [hx, hy, compare_lt_iff_lt.mpr hzero]
      rfl
    | zero hy =>
      rw [hx, hy, compare_eq_iff_eq.mpr rfl]
      rfl
    | finite hy =>
      rw [hx, hy, compare_lt_iff_lt.mpr (hpos ‹_›)]
      rfl
  | finite hx =>
    cases hy with
    | infinite hy =>
      rw [hx, hy, compare_lt_iff_lt.mpr (htop _)]
      rfl
    | zero hy =>
      rw [hx, hy, compare_gt_iff_gt.mpr (hpos ‹_›)]
      rfl
    | finite hy =>
      have hcompare := (canonical_of_unpacked hx).compare_eq (canonical_of_unpacked hy)
      rw [hx, hy, compare_coe, ← hcompare]
      rfl

/-- One number is below another exactly if its size is. -/
theorem lt_iff (hx : HasSize x s) (hy : HasSize y t) : x < y ↔ s < t := by
  have hlt : x < y ↔ UnpackedFloat.compare (unpacked x) (unpacked y) = some .lt :=
    decide_eq_true_iff.trans beq_iff_eq
  rw [hlt, hx.compare_eq hy, Option.some_inj, compare_lt_iff_lt]

/-- One number is at most another exactly if its size is. -/
theorem le_iff (hx : HasSize x s) (hy : HasSize y t) : x ≤ y ↔ s ≤ t := by
  have hle : x ≤ y ↔
      (UnpackedFloat.compare (unpacked x) (unpacked y)).any (·.isLE) = true :=
    decide_eq_true_iff
  rw [hle, hx.compare_eq hy, Option.any_some, ← Ordering.ne_gt_iff_isLE]
  exact compare_le_iff_le

/-- Two numbers compare as equal exactly if their sizes are equal. -/
theorem beq_iff (hx : HasSize x s) (hy : HasSize y t) : (x == y) = true ↔ s = t := by
  have hbeq : (x == y) = (UnpackedFloat.compare (unpacked x) (unpacked y) == some .eq) := rfl
  rw [hbeq, beq_iff_eq, hx.compare_eq hy, Option.some_inj, compare_eq_iff_eq]

/-- Numbers of equal size are equal. -/
theorem eq_of_eq (hx : HasSize x s) (hy : HasSize y t) (h : s = t) : x = y := by
  have hcompare := hx.compare_eq hy
  rw [compare_eq_iff_eq.mpr h] at hcompare
  apply eq_of_unpacked_eq
  cases hx with
  | infinite hx =>
    cases hy with
    | infinite hy => rw [hx, hy]
    | zero hy => simp [hx, hy, UnpackedFloat.compare] at hcompare
    | finite hy => simp [hx, hy, UnpackedFloat.compare] at hcompare
  | zero hx =>
    cases hy with
    | infinite hy => simp [hx, hy, UnpackedFloat.compare] at hcompare
    | zero hy => rw [hx, hy]
    | finite hy => simp [hx, hy, UnpackedFloat.compare] at hcompare
  | finite hx =>
    cases hy with
    | infinite hy => simp [hx, hy, UnpackedFloat.compare] at hcompare
    | zero hy => simp [hx, hy, UnpackedFloat.compare] at hcompare
    | finite hy =>
      rw [hx, hy, UnpackedFloat.compare, Option.some_inj, Ordering.then_eq_eq,
        compare_eq_iff_eq, compare_eq_iff_eq] at hcompare
      obtain ⟨rfl, rfl⟩ := hcompare
      rw [hx, hy]

/-- A number has only one size. -/
theorem unique (h : HasSize x s) (h' : HasSize x t) : s = t := by
  cases h with
  | infinite h => cases h' <;> simp_all
  | zero h => cases h' <;> simp_all
  | finite h => cases h' <;> simp_all

/-- A number of finite size is a zero or unpacks to a significand and a last place. -/
theorem zero_or_finite {p : ℚ} (h : HasSize x p) :
    (unpacked x = .zero .positive ∧ p = 0) ∨
      ∃ m e hm, unpacked x = .finite .positive m e hm ∧ Canonical m e ∧ p = m * 2 ^ e := by
  generalize hs : (p : WithTop ℚ) = s at h
  cases h with
  | infinite _ => exact absurd hs WithTop.coe_ne_top
  | zero h => exact Or.inl ⟨h, WithTop.coe_eq_zero.mp hs⟩
  | finite h => exact Or.inr ⟨_, _, _, h, canonical_of_unpacked h, WithTop.coe_inj.mp hs⟩

/-- A finite size is representable. -/
theorem representable {p : ℚ} (h : HasSize x p) : Representable p := by
  rcases h.zero_or_finite with ⟨_, rfl⟩ | ⟨m, e, _, _, hcanonical, rfl⟩
  · exact Representable.zero
  · exact ⟨m, e, hcanonical.lt, hcanonical.least_le, rfl⟩

/-- A finite size is below the bound from which on sizes are infinite. -/
theorem lt_two_pow {p : ℚ} (h : HasSize x p) : p < 2 ^ 1024 := by
  rcases h.zero_or_finite with ⟨_, rfl⟩ | ⟨m, e, _, _, hcanonical, rfl⟩
  · positivity
  · exact hcanonical.lt_two_pow

/-- No size is negative. -/
theorem nonneg (h : HasSize x s) : 0 ≤ s := by
  cases h with
  | infinite _ => exact le_top
  | zero _ => exact le_rfl
  | finite _ => exact WithTop.coe_le_coe.mpr (by positivity)

/-- The finite numbers are those of finite size. -/
theorem isFinite_iff (h : HasSize x s) : x.isFinite = true ↔ s ≠ ⊤ := by
  have hfinite : x.isFinite = (unpacked x).isFinite := rfl
  rw [hfinite]
  cases h with
  | infinite h => simp [h, UnpackedFloat.isFinite]
  | zero h => simp [h, UnpackedFloat.isFinite]
  | finite h => exact iff_of_true (by rw [h]; rfl) WithTop.coe_ne_top

/-- A number with a size is infinite exactly if its size is. -/
theorem isInf_iff (h : HasSize x s) : x.isInf = true ↔ s = ⊤ := by
  have hinf : x.isInf = (unpacked x).isInf := rfl
  rw [hinf]
  cases h with
  | infinite h => simp [h, UnpackedFloat.isInf]
  | zero h => simp [h, UnpackedFloat.isInf]
  | finite h => exact iff_of_false (by rw [h]; exact Bool.false_ne_true) WithTop.coe_ne_top

/-- What has a size is a number. -/
theorem isNaN_eq (h : HasSize x s) : x.isNaN = false := by
  have hnan : x.isNaN = (unpacked x).isNaN := rfl
  rw [hnan]
  cases h with
  | infinite h => rw [h]; rfl
  | zero h => rw [h]; rfl
  | finite h => rw [h]; rfl

/-- A zero whose sign bit is set has no size. -/
theorem ne_neg_zero (h : HasSize x s) : unpacked x ≠ .zero .negative := by
  cases h with
  | infinite h => simp [h]
  | zero h => simp [h]
  | finite h => simp [h]

end HasSize

/-- The zero whose sign bit is set, by its bits. -/
theorem unpacked_of_toBits {x : Float} (h : x.toBits = 0x8000000000000000) :
    unpacked x = .zero .negative := by
  have hbits : x.toModel.toBits = 0x8000000000000000 := h
  rw [unpacked, Float.Model.unpack, hbits]
  rfl

/-- Infinity is infinite. -/
theorem hasSize_unbounded : HasSize unbounded ⊤ := .infinite rfl

/-- The size of zero. -/
theorem hasSize_zero : HasSize 0 0 := .zero rfl

/-- A number has a size exactly when it is one and its sign bit is clear. -/
theorem exists_hasSize_iff {x : Float} :
    (∃ s, HasSize x s) ↔ x.isNaN = false ∧ x.toBits.toNat < 2 ^ 63 := by
  have hnan : x.isNaN = (unpacked x).isNaN := rfl
  have hsign : x.toBits.toNat < 2 ^ 63 ↔ signOf x.toModel.toBits.toBitVec = .positive :=
    signOf_eq_positive_iff.symm
  have hunpacked : unpacked x = _ := unpack_eq x.toModel.toBits.toBitVec
  rw [hnan, hsign]
  generalize signOf x.toModel.toBits.toBitVec = sign at hunpacked ⊢
  constructor
  · rintro ⟨s, h⟩
    refine ⟨h.isNaN_eq, ?_⟩
    cases h with
    | infinite h => split_ifs at hunpacked <;> simp_all
    | zero h => split_ifs at hunpacked <;> simp_all
    | finite h => split_ifs at hunpacked <;> simp_all
  · rintro ⟨hnumber, rfl⟩
    split_ifs at hunpacked
    · exact ⟨_, .infinite hunpacked⟩
    · rw [hunpacked] at hnumber
      cases hnumber
    · exact ⟨_, .zero hunpacked⟩
    · exact ⟨_, .finite hunpacked⟩
    · exact ⟨_, .finite hunpacked⟩

/-- What has no size is below every number that has one, or equal to zero, or no number. -/
theorem HasSize.compare_of_forall_not {x y : Float} {s : WithTop ℚ} (hx : HasSize x s)
    (hy : ∀ t, ¬ HasSize y t) :
    UnpackedFloat.compare (unpacked x) (unpacked y) = none ∨
      UnpackedFloat.compare (unpacked x) (unpacked y) = some .gt ∨
      s = 0 ∧ UnpackedFloat.compare (unpacked x) (unpacked y) = some .eq := by
  cases hy' : unpacked y with
  | notANumber =>
    left
    cases unpacked x <;> rfl
  | infinity sign =>
    cases sign with
    | positive => exact absurd (HasSize.infinite hy') (hy _)
    | negative => right; left; cases hx <;> simp_all [UnpackedFloat.compare]; rfl
  | zero sign =>
    cases hx with
    | infinite hx => right; left; rw [hx]; rfl
    | zero hx => right; right; rw [hx]; exact ⟨rfl, rfl⟩
    | finite hx => right; left; rw [hx]; rfl
  | finite sign m e hm =>
    cases sign with
    | positive => exact absurd (HasSize.finite hy') (hy _)
    | negative => right; left; cases hx <;> simp_all [UnpackedFloat.compare]

/-- What has no size and is equal to a number that has one is a zero whose sign bit is set, so that
number is zero. -/
theorem HasSize.eq_zero_of_beq {x y : Float} {s : WithTop ℚ} (hy : HasSize y s)
    (hx : ∀ t, ¬ HasSize x t) (h : (x == y) = true) : s = 0 := by
  have hcompare : UnpackedFloat.compare (unpacked x) (unpacked y) = some .eq := beq_iff_eq.mp h
  cases hx' : unpacked x with
  | notANumber => simp [hx', UnpackedFloat.compare] at hcompare
  | infinity sign =>
    cases sign with
    | positive => exact absurd (HasSize.infinite hx') (hx _)
    | negative => cases hy <;> simp_all [UnpackedFloat.compare]
  | zero sign => cases hy <;> simp_all [UnpackedFloat.compare]
  | finite sign m e hm =>
    cases sign with
    | positive => exact absurd (HasSize.finite hx') (hx _)
    | negative => cases hy <;> simp_all [UnpackedFloat.compare]

/-- What is above a number with a size has a size. -/
theorem exists_hasSize_of_lt {x y : Float} {s : WithTop ℚ} (hx : HasSize x s) (h : x < y) :
    ∃ t, HasSize y t := by
  have hlt : UnpackedFloat.compare (unpacked x) (unpacked y) = some .lt :=
    beq_iff_eq.mp (decide_eq_true_iff.mp h)
  by_contra hnone
  rcases hx.compare_of_forall_not (not_exists.mp hnone) with hcmp | hcmp | ⟨_, hcmp⟩ <;>
    simp [hcmp] at hlt

/-- What is no less than a positive number has a size. -/
theorem exists_hasSize_of_le {x y : Float} {s : WithTop ℚ} (hx : HasSize x s) (hs : s ≠ 0)
    (h : x ≤ y) : ∃ t, HasSize y t := by
  have hle : (UnpackedFloat.compare (unpacked x) (unpacked y)).any (·.isLE) = true :=
    decide_eq_true_iff.mp h
  by_contra hnone
  rcases hx.compare_of_forall_not (not_exists.mp hnone) with hcmp | hcmp | ⟨hzero, _⟩
  · simp [hcmp] at hle
  · simp [hcmp] at hle
  · exact hs hzero

end FlowControl.Binary64
