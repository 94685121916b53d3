import FlowControl.Proofs.Binary64.Size

/-!
# The order of numbers

Whatever their signs are, two numbers are in order or in the other one. Only what is no number
compares with nothing.
-/

namespace FlowControl.Binary64

open Float.Model Float.Model.UnpackedFloat

/-- What two numbers compare to, from the side of the other one. -/
theorem compare_swap (u v : UnpackedFloat) :
    UnpackedFloat.compare v u = (UnpackedFloat.compare u v).map Ordering.swap := by
  have hsign (s t : Sign) : compare t s = (compare s t).swap := by
    cases s <;> cases t <;> rfl
  have hint (e f : ℤ) : compare f e = (compare e f).swap := Std.OrientedOrd.eq_swap
  have hnat (m n : ℕ) : compare n m = (compare m n).swap := Std.OrientedOrd.eq_swap
  cases u with
  | notANumber => cases v <;> rfl
  | infinity s =>
    cases v with
    | infinity t => exact congrArg some (hsign s t)
    | _ => cases s <;> rfl
  | zero s =>
    cases v with
    | infinity t => cases t <;> rfl
    | finite t => cases t <;> rfl
    | _ => rfl
  | finite s m e hm =>
    cases v with
    | infinity t => cases s <;> cases t <;> rfl
    | finite t n f hn =>
      cases s <;> cases t <;>
        simp [UnpackedFloat.compare, Ordering.swap_then, hint e f, hnat m n]
    | _ => cases s <;> rfl

/-- Two numbers compare. -/
theorem isSome_compare {u v : UnpackedFloat} (hu : u.isNaN = false) (hv : v.isNaN = false) :
    (UnpackedFloat.compare u v).isSome = true := by
  cases u with
  | notANumber => cases hu
  | infinity s =>
    cases v with
    | notANumber => cases hv
    | _ => cases s <;> rfl
  | zero s =>
    cases v with
    | notANumber => cases hv
    | zero t => rfl
    | infinity t => cases t <;> rfl
    | finite t => cases t <;> rfl
  | finite s =>
    cases v with
    | notANumber => cases hv
    | zero t => cases s <;> rfl
    | infinity t => cases s <;> cases t <;> rfl
    | finite t => cases s <;> cases t <;> rfl

variable {x y : Float}

/-- Of two numbers one is no more than the other, or above it. -/
theorem not_le_iff (hx : x.isNaN = false) (hy : y.isNaN = false) : ¬ x ≤ y ↔ y < x := by
  have hle : x ≤ y ↔
      (UnpackedFloat.compare (unpacked x) (unpacked y)).any (·.isLE) = true :=
    decide_eq_true_iff
  have hlt : y < x ↔ UnpackedFloat.compare (unpacked y) (unpacked x) = some .lt :=
    decide_eq_true_iff.trans beq_iff_eq
  have hsome : (UnpackedFloat.compare (unpacked x) (unpacked y)).isSome = true :=
    isSome_compare hx hy
  obtain ⟨order, horder⟩ := Option.isSome_iff_exists.mp hsome
  rw [hle, hlt, compare_swap (unpacked x), horder]
  cases order <;> decide

/-- A finite number is a number and not infinite. -/
theorem isNaN_isInf_of_isFinite (h : x.isFinite = true) : x.isNaN = false ∧ x.isInf = false := by
  have hfinite : (unpacked x).isFinite = true := h
  change (unpacked x).isNaN = false ∧ (unpacked x).isInf = false
  cases hx : unpacked x with
  | notANumber => simp [hx, UnpackedFloat.isFinite] at hfinite
  | infinity s => simp [hx, UnpackedFloat.isFinite] at hfinite
  | zero s => exact ⟨rfl, rfl⟩
  | finite s => exact ⟨rfl, rfl⟩

/-- What is no number, or negative, or the zero whose sign bit is set, has no size, and nothing else
has none. -/
theorem isNaN_or_lt_zero (h : ∀ s, ¬ HasSize x s) (hzero : unpacked x ≠ .zero .negative) :
    x.isNaN = true ∨ x < 0 := by
  have hnan : x.isNaN = (unpacked x).isNaN := rfl
  have hlt : x < 0 ↔ UnpackedFloat.compare (unpacked x) (.zero .positive) = some .lt :=
    decide_eq_true_iff.trans beq_iff_eq
  rw [hnan, hlt]
  cases hx : unpacked x with
  | notANumber => exact Or.inl rfl
  | infinity s =>
    cases s with
    | positive => exact absurd (.infinite hx) (h ⊤)
    | negative => exact Or.inr rfl
  | zero s =>
    cases s with
    | positive => exact absurd (.zero hx) (h 0)
    | negative => exact absurd hx hzero
  | finite s =>
    cases s with
    | positive => exact absurd (.finite hx) (h _)
    | negative => exact Or.inr rfl

end FlowControl.Binary64
