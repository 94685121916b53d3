import FlowControl.Proofs.Binary64.Arithmetic

/-!
# The value of a number that is not negative

Both zeros have the value zero, and every other number that is not negative has its size as its
value. Numbers are compared as their values are, and sums, products and quotients have the exact
results as their values, rounded once. Other than a size, a value does not tell a zero from the one
whose sign bit is set.
-/

namespace FlowControl.Binary64

open Float.Model Float.Model.UnpackedFloat

/-- The size of a number, or zero for the zero whose sign bit is set. -/
def HasValue (x : Float) (s : WithTop ℚ) : Prop :=
  HasSize x s ∨ unpacked x = .zero .negative ∧ s = 0

/-- The size of a number is its value. -/
theorem HasSize.hasValue {x : Float} {s : WithTop ℚ} (h : HasSize x s) : HasValue x s := Or.inl h

/-- What is not negative has a value. -/
theorem exists_hasValue_of_nonneg {x : Float} (h : 0 ≤ x) : ∃ s, HasValue x s := by
  by_cases hsize : ∃ s, HasSize x s
  · obtain ⟨s, hs⟩ := hsize
    exact ⟨s, hs.hasValue⟩
  have hle : (UnpackedFloat.compare (unpacked 0) (unpacked x)).any (·.isLE) = true :=
    decide_eq_true_iff.mp h
  have hzero : unpacked 0 = .zero .positive := rfl
  rw [hzero] at hle
  refine ⟨0, Or.inr ⟨?_, rfl⟩⟩
  cases hx : unpacked x with
  | notANumber => simp [hx, UnpackedFloat.compare] at hle
  | infinity sign =>
    cases sign with
    | positive => exact absurd ⟨⊤, .infinite hx⟩ hsize
    | negative => simp [hx, UnpackedFloat.compare] at hle
  | zero sign =>
    cases sign with
    | positive => exact absurd ⟨0, .zero hx⟩ hsize
    | negative => rfl
  | finite sign m e hm =>
    cases sign with
    | positive => exact absurd ⟨_, .finite hx⟩ hsize
    | negative => simp [hx, UnpackedFloat.compare] at hle

/-- What something is no more than is a number. -/
theorem isNaN_of_le {x y : Float} (h : x ≤ y) : y.isNaN = false := by
  have hle : (UnpackedFloat.compare (unpacked x) (unpacked y)).any (·.isLE) = true :=
    decide_eq_true_iff.mp h
  have hnan : y.isNaN = (unpacked y).isNaN := rfl
  rw [hnan]
  cases hy : unpacked y with
  | notANumber =>
    have hnone (u : UnpackedFloat) : UnpackedFloat.compare u .notANumber = none := by
      cases u <;> rfl
    rw [hy, hnone] at hle
    exact absurd hle Bool.false_ne_true
  | _ => rfl

/-- The sign of a zero does not show in comparisons. -/
private theorem compare_zero (sign : Sign) (u : UnpackedFloat) :
    UnpackedFloat.compare (.zero sign) u = UnpackedFloat.compare (.zero .positive) u ∧
      UnpackedFloat.compare u (.zero sign) = UnpackedFloat.compare u (.zero .positive) := by
  cases u with
  | finite other => cases other <;> exact ⟨rfl, rfl⟩
  | infinity other => cases other <;> exact ⟨rfl, rfl⟩
  | _ => exact ⟨rfl, rfl⟩

namespace HasValue

variable {x y : Float} {s t : WithTop ℚ} {p q : ℚ}

/-- A number is compared like one that has its value as its size. -/
private theorem exists_hasSize (h : HasValue x s) : ∃ x', HasSize x' s ∧ ∀ u,
    UnpackedFloat.compare (unpacked x) u = UnpackedFloat.compare (unpacked x') u ∧
      UnpackedFloat.compare u (unpacked x) = UnpackedFloat.compare u (unpacked x') := by
  rcases h with h | ⟨h, rfl⟩
  · exact ⟨x, h, fun _ => ⟨rfl, rfl⟩⟩
  · refine ⟨0, hasSize_zero, fun u => ?_⟩
    rw [h]
    exact compare_zero .negative u

/-- Numbers are compared as their values are. -/
theorem compare_eq (hx : HasValue x s) (hy : HasValue y t) :
    UnpackedFloat.compare (unpacked x) (unpacked y) = some (compare s t) := by
  obtain ⟨x', hx', hleft⟩ := hx.exists_hasSize
  obtain ⟨y', hy', hright⟩ := hy.exists_hasSize
  rw [(hleft _).1, (hright _).2, hx'.compare_eq hy']

/-- One number is below another exactly if its value is. -/
theorem lt_iff (hx : HasValue x s) (hy : HasValue y t) : x < y ↔ s < t := by
  have hlt : x < y ↔ UnpackedFloat.compare (unpacked x) (unpacked y) = some .lt :=
    decide_eq_true_iff.trans beq_iff_eq
  rw [hlt, hx.compare_eq hy, Option.some_inj, compare_lt_iff_lt]

/-- One number is at most another exactly if its value is. -/
theorem le_iff (hx : HasValue x s) (hy : HasValue y t) : x ≤ y ↔ s ≤ t := by
  have hle : x ≤ y ↔
      (UnpackedFloat.compare (unpacked x) (unpacked y)).any (·.isLE) = true :=
    decide_eq_true_iff
  rw [hle, hx.compare_eq hy, Option.any_some, ← Ordering.ne_gt_iff_isLE]
  exact compare_le_iff_le

/-- Two numbers compare as equal exactly if their values are equal. -/
theorem beq_iff (hx : HasValue x s) (hy : HasValue y t) : (x == y) = true ↔ s = t := by
  have hbeq : (x == y) = (UnpackedFloat.compare (unpacked x) (unpacked y) == some .eq) := rfl
  rw [hbeq, beq_iff_eq, hx.compare_eq hy, Option.some_inj, compare_eq_iff_eq]

/-- No value is negative. -/
theorem nonneg (h : HasValue x s) : 0 ≤ s := by
  rcases h with h | ⟨-, rfl⟩
  · exact h.nonneg
  · exact le_rfl

/-- A number with a value is finite exactly if its value is. -/
theorem isFinite_iff (h : HasValue x s) : x.isFinite = true ↔ s ≠ ⊤ := by
  rcases h with h | ⟨h, rfl⟩
  · exact h.isFinite_iff
  · have hfinite : x.isFinite = (unpacked x).isFinite := rfl
    exact iff_of_true (by rw [hfinite, h]; rfl) WithTop.zero_ne_top

/-- What has a value is a number. -/
theorem isNaN_eq (h : HasValue x s) : x.isNaN = false := by
  rcases h with h | ⟨h, -⟩
  · exact h.isNaN_eq
  · have hnan : x.isNaN = (unpacked x).isNaN := rfl
    rw [hnan, h]
    rfl

/-- A finite value is representable. -/
theorem representable (h : HasValue x p) : Representable p := by
  rcases h with h | ⟨-, h⟩
  · exact h.representable
  · rw [WithTop.coe_eq_zero.mp h]
    exact .zero

/-- A finite value is below the bound from which on values are infinite. -/
theorem lt_two_pow (h : HasValue x p) : p < 2 ^ 1024 := by
  rcases h with h | ⟨-, h⟩
  · exact h.lt_two_pow
  · rw [WithTop.coe_eq_zero.mp h]
    positivity

/-- A value that is not zero is a size. -/
theorem hasSize (h : HasValue x s) (hs : s ≠ 0) : HasSize x s :=
  h.resolve_right fun hzero => hs hzero.2

/-- What unpacks to a zero has the value zero. -/
private theorem of_zero {u : UnpackedFloat} {sign : Sign} (h : u = .zero sign) :
    HasValue (.ofModel (.pack u)) 0 := by
  have hunpacked : unpacked (.ofModel (.pack u)) = .zero sign := by
    rw [unpacked_pack, h, unpack_pack_zero]
  cases sign with
  | positive => exact (HasSize.zero hunpacked).hasValue
  | negative => exact Or.inr ⟨hunpacked, rfl⟩

/-- A finite value is that of a zero or of a significand and a last place. -/
private theorem zero_or_finite (h : HasValue x p) :
    (∃ sign, unpacked x = .zero sign ∧ p = 0) ∨
      HasSize x p ∧ ∃ m e hm, unpacked x = .finite .positive m e hm := by
  rcases h with h | ⟨h, hp⟩
  · rcases h.zero_or_finite with ⟨hzero, rfl⟩ | ⟨m, e, hm, hfinite, -, -⟩
    · exact Or.inl ⟨.positive, hzero, rfl⟩
    · exact Or.inr ⟨h, m, e, hm, hfinite⟩
  · exact Or.inl ⟨.negative, h, WithTop.coe_eq_zero.mp hp⟩

/-- The sum of two values is rounded once. -/
theorem add (hx : HasValue x p) (hy : HasValue y q) : HasValue (x + y) (rounded (p + q)) := by
  have hsum : x + y =
      .ofModel (.pack (UnpackedFloat.add Format.binary64 (unpacked x) (unpacked y))) := rfl
  rcases hx.zero_or_finite with ⟨sign, hx', rfl⟩ | ⟨hx', m, e, hm, hfinite⟩
  · rcases hy.zero_or_finite with ⟨sign', hy', rfl⟩ | ⟨hy', m, e, hm, hfinite⟩
    · rw [add_zero, rounded_zero, hsum, hx', hy']
      cases sign <;> cases sign' <;> exact of_zero rfl
    · have hsame : UnpackedFloat.add Format.binary64 (unpacked x) (unpacked y) = unpacked y := by
        rw [hx', hfinite]
        rfl
      rw [hsum, hsame, pack_unpacked, zero_add, rounded_eq hy'.representable hy'.lt_two_pow]
      exact hy
  · rcases hy.zero_or_finite with ⟨sign', hy', rfl⟩ | ⟨hy', -⟩
    · have hsame : UnpackedFloat.add Format.binary64 (unpacked x) (unpacked y) = unpacked x := by
        rw [hfinite, hy']
        rfl
      rw [hsum, hsame, pack_unpacked, add_zero, rounded_eq hx'.representable hx'.lt_two_pow]
      exact hx
    · exact (hx'.add hy').hasValue

/-- The product of two values is rounded once. -/
theorem mul (hx : HasValue x p) (hy : HasValue y q) : HasValue (x * y) (rounded (p * q)) := by
  have hproduct : x * y =
      .ofModel (.pack (UnpackedFloat.mul Format.binary64 (unpacked x) (unpacked y))) := rfl
  rcases hx.zero_or_finite with ⟨sign, hx', rfl⟩ | ⟨hx', m, e, hm, hfinite⟩
  · rw [zero_mul, rounded_zero, hproduct, hx']
    rcases hy.zero_or_finite with ⟨sign', hy', -⟩ | ⟨-, m', e', hm', hy'⟩ <;> rw [hy'] <;>
      exact of_zero rfl
  · rcases hy.zero_or_finite with ⟨sign', hy', rfl⟩ | ⟨hy', -⟩
    · rw [mul_zero, rounded_zero, hproduct, hfinite, hy']
      exact of_zero rfl
    · exact (hx'.mul hy').hasValue

/-- The quotient of two values is rounded once. -/
theorem div (hx : HasValue x p) (hy : HasValue y q) (hq : 0 < q) :
    HasValue (x / y) (rounded (p / q)) := by
  have hquotient : x / y =
      .ofModel (.pack (UnpackedFloat.div Format.binary64 (unpacked x) (unpacked y))) := rfl
  rcases hy.zero_or_finite with ⟨-, -, rfl⟩ | ⟨hy', m, e, hm, hfinite⟩
  · exact absurd hq (lt_irrefl 0)
  rcases hx.zero_or_finite with ⟨sign, hx', rfl⟩ | ⟨hx', -⟩
  · rw [zero_div, rounded_zero, hquotient, hx', hfinite]
    exact of_zero rfl
  · exact (hx'.div hy' hq).hasValue

end HasValue

end FlowControl.Binary64
