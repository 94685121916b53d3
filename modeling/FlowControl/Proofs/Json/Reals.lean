import FlowControl.Proofs.Json.Nearness
import FlowControl.Proofs.Json.Numbers

/-!
# Real numbers that are written and read

A finite number that is written in JSON is read as a finite number of the same sign, a zero
included. It may be another number, as the digits are not rounded to the nearest number at once, but
it is two places away at most.
-/

namespace FlowControl.Json

open Binary64 Float.Model
open FlowControl.Numeral (decimal? splitSign)
open Json.Numeral (Near scale signed exists_scale)

variable {x y : Float} {d : Decimal} {p r : ℚ}

/-- The decimal that stands in the JSON text of a number after its sign. All digits count that are
written, also the zeros around the point. -/
def writtenDecimal? (x : Float) : Option Decimal :=
  decimal? (splitSign (NumberStyle.json.chars x)).2

/-- A number that is read where another one was written. -/
structure Reread (x y : Float) : Prop where
  isFinite : y.isFinite = true
  sign_eq : y.toBits.toNat / 2 ^ 63 = x.toBits.toNat / 2 ^ 63
  near : ∃ d, writtenDecimal? x = some d ∧ Near d x y

/-- A number that is read from a decimal of the written size. -/
structure ReadsFrom (d : Decimal) (x : Float) : Prop where
  coefficient_lt : d.coefficient < wordCount
  least_le : -324 ≤ d.exponent
  le_most : d.exponent ≤ 308
  zero : d.coefficient = 0 → d.exponent = 0
  exists_scale : ∀ d' : Decimal, d'.size = d.size → d' = d ∨ d'.exponent = -1 →
    d'.coefficient < wordCount → ∃ (y : Float) (r : ℚ),
      scale 3 d'.coefficient.toUInt64.toFloat d'.exponent = .ok y ∧ HasSize y r ∧ Near d' x y

/-- Zero is read from a decimal without a coefficient. -/
theorem readsFrom_zero : ReadsFrom ⟨0, 0⟩ 0 where
  coefficient_lt := by decide
  least_le := by decide
  le_most := by decide
  zero := fun _ => rfl
  exists_scale := by
    rintro ⟨coefficient, exponent⟩ hsize hwritten -
    have hcoefficient : coefficient = 0 := by
      rw [Decimal.size, Decimal.size, Nat.cast_zero, zero_mul] at hsize
      have := (mul_eq_zero.mp hsize).resolve_right (zpow_pos (by norm_num) _).ne'
      exact_mod_cast this
    have hnear : ∀ d, Near d 0 0 := fun d => ⟨by simp [places], by simp [places], fun _ _ => rfl⟩
    subst hcoefficient
    rcases hwritten with heq | heq
    · obtain rfl := (Decimal.mk.inj heq).2
      exact ⟨0, 0, by rfl, hasSize_zero, hnear _⟩
    · obtain rfl : exponent = -1 := heq
      exact ⟨0, 0, by rfl, hasSize_zero, hnear _⟩

/-- A number with a clear sign bit reads from its shortest decimal. -/
theorem readsFrom_shortest {m : Magnitude} {hm : 0 < m.significand}
    (hx : unpacked x = .finite .positive m.significand m.exponent hm) :
    ReadsFrom (m.shortest .toEven) x := by
  have hbinary : m.IsBinary64 := ⟨hm, canonical_of_unpacked hx⟩
  obtain ⟨hcontains, hlt, hleast⟩ := hbinary.shortest_mem .toEven
  refine ⟨hlt, hleast, hbinary.exponent_le hcontains, fun hzero => ?_,
    fun d' hsize hwritten hlt' => exists_scale hx hsize hwritten hlt'⟩
  have := hbinary.size_pos hcontains
  rw [Decimal.size, hzero, Nat.cast_zero, zero_mul] at this
  exact absurd this (lt_irrefl 0)

/-- A minus sign turns the sign of a number around and leaves the rest of it as it is. -/
theorem unpacked_signed (negative : Bool) (x : Float) :
    unpacked (signed negative x) = if negative then (unpacked x).neg else unpacked x := by
  cases negative with
  | false => rfl
  | true => exact unpacked_neg x

/-- To put the same sign before a number twice changes nothing. -/
theorem signed_signed (negative : Bool) (x : Float) : signed negative (signed negative x) = x := by
  cases negative with
  | false => rfl
  | true => exact neg_neg_float x

/-- A finite number is written as a sign and the decimal from which its absolute value is read. -/
theorem exists_readsFrom (hx : x.isFinite = true) :
    ∃ negative d, ∃ p : ℚ, HasSize (signed negative x) p ∧ ReadsFrom d (signed negative x) ∧
      NumberStyle.json.chars x =
        NumberStyle.signChars negative ++ NumberStyle.json.decimalChars d := by
  have hfinite : (unpacked x).isFinite = true := hx
  have hshape : FloatShape.ofFloat x = .ofUnpacked (unpacked x) := rfl
  rw [NumberStyle.chars, hshape]
  cases hu : unpacked x with
  | notANumber => simp [hu, UnpackedFloat.isFinite] at hfinite
  | infinity sign => simp [hu, UnpackedFloat.isFinite] at hfinite
  | zero sign =>
    have hsigned : unpacked (signed (FloatShape.isNegative sign) x) = .zero .positive := by
      rw [unpacked_signed, hu]
      cases sign <;> rfl
    have hzero : signed (FloatShape.isNegative sign) x = 0 := eq_of_unpacked_eq hsigned
    exact ⟨FloatShape.isNegative sign, ⟨0, 0⟩, 0, .zero hsigned, hzero ▸ readsFrom_zero, rfl⟩
  | finite sign m e hm =>
    have hsigned : unpacked (signed (FloatShape.isNegative sign) x) = .finite .positive m e hm := by
      rw [unpacked_signed, hu]
      cases sign <;> rfl
    exact ⟨FloatShape.isNegative sign, _, _, .finite hsigned,
      readsFrom_shortest (m := ⟨m, e⟩) hsigned, rfl⟩

/-- The sign bit of a number is its sign. -/
theorem sign_signed (negative : Bool) (hx : HasSize x p) :
    (signed negative x).toBits.toNat / 2 ^ 63 = negative.toNat := by
  have hlt : x.toBits.toNat < 2 ^ 63 := (exists_hasSize_iff.mp ⟨_, hx⟩).2
  cases negative with
  | false => exact Nat.div_eq_of_lt hlt
  | true =>
    rw [signed, if_pos rfl, hx.toBits_neg, Nat.add_div_left _ (by positivity),
      Nat.div_eq_of_lt hlt]
    rfl

/-- Two numbers are as near to each other with a sign as without it. -/
theorem near_signed (negative : Bool) (hx : HasSize x p) (hy : HasSize y r) (h : Near d x y) :
    Near d (signed negative x) (signed negative y) := by
  have hplaces : places (signed negative x) (signed negative y) = places x y := by
    cases negative with
    | false => rfl
    | true => exact hx.places_neg hy
  exact ⟨hplaces ▸ h.places_le_two, fun h₁ h₂ => hplaces ▸ h.places_le_one h₁ h₂,
    fun h₁ h₂ => by rw [h.eq h₁ h₂]⟩

/-- **A finite number that is written is read as one that is near it.** -/
theorem Head.exists_read_chars (hx : x.isFinite = true) :
    ∃ y, Reread x y ∧ ∀ rest, IsEnd rest →
      Head.read (NumberStyle.json.chars x ++ rest) = .ok (.number (.real y), rest) := by
  obtain ⟨negative, d, p, hsize, hreads, hchars⟩ := exists_readsFrom hx
  obtain ⟨d', hd', hsame, hlt, hwritten, hread⟩ := Head.exists_read_decimalChars negative
    hreads.coefficient_lt hreads.least_le hreads.le_most hreads.zero
  obtain ⟨y, r, hscale, hy, hnear⟩ := hreads.exists_scale d' hsame hwritten hlt
  have hsplit : splitSign (NumberStyle.json.chars x) =
      (negative, NumberStyle.json.decimalChars d) := by
    rw [hchars]
    cases negative with
    | true => rfl
    | false => exact FlowControl.Numeral.splitSign_of_reads ⟨d', hd', hsame⟩
  have hback := near_signed negative hsize hy hnear
  rw [signed_signed] at hback
  refine ⟨signed negative y, ⟨?_, ?_, d', by rw [writtenDecimal?, hsplit]; exact hd', hback⟩,
    fun rest hrest => by rw [hchars]; exact hread y hscale rest hrest⟩
  · rw [Json.Numeral.isFinite_signed]
    exact hy.isFinite_iff.mpr WithTop.coe_ne_top
  · have hsign := sign_signed negative hsize
    rw [signed_signed] at hsign
    rw [sign_signed negative hy, hsign]

end FlowControl.Json
