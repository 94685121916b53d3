import FlowControl.Decimal.Numeral
import FlowControl.Decimal.Style
import FlowControl.Proofs.Decimal.Shortest

/-!
# Reading back what is written

A decimal that is written in a number style and read as a numeral is a decimal of the same size.
Zeros that are only there for the place of the point change the coefficient and the exponent, so it
need not be the same decimal.
-/

namespace FlowControl

namespace Numeral

variable {whole fraction rest : List Char} {e : ℤ}

/-- Digits before others count for as many places more. -/
theorem ofDigits_append (front back : List Char) :
    ofDigits (front ++ back) = ofDigits front * 10 ^ back.length + ofDigits back := by
  rw [ofDigits, Nat.ofDigitChars_append, Nat.ofDigitChars_eq_ofDigitChars_zero, mul_comm]
  rfl

/-- Zeros alone are zero. -/
theorem ofDigits_replicate_zero (k : ℕ) : ofDigits (List.replicate k '0') = 0 := by
  rw [ofDigits, Nat.ofDigitChars_replicate_zero, mul_zero]

/-- The digits of a number are those of this number. -/
theorem ofDigits_toDigits (n : ℕ) : ofDigits (Nat.toDigits 10 n) = n :=
  Nat.ofDigitChars_ten_toDigits

/-- At least one digit, and nothing else. -/
structure IsDigits (digits : List Char) : Prop where
  ne_nil : digits ≠ []
  isDigit : ∀ c ∈ digits, c.isDigit = true

/-- A number is written in digits, at least one. -/
theorem isDigits_toDigits (n : ℕ) : IsDigits (Nat.toDigits 10 n) :=
  ⟨Nat.toDigits_ne_nil, fun _ hc => Nat.isDigit_of_mem_toDigits (by decide) (by decide) hc⟩

/-- Zeros are digits. -/
theorem isDigit_of_mem_replicate_zero {k : ℕ} : ∀ c ∈ List.replicate k '0', c.isDigit = true := by
  intro c hc
  rw [List.eq_of_mem_replicate hc]
  rfl

/-- Digits are split off from what does not start with a digit. -/
theorem spanDigits_append (hwhole : ∀ c ∈ whole, c.isDigit = true)
    (hrest : ∀ c ∈ rest.head?, c.isDigit = false) :
    spanDigits (whole ++ rest) = (whole, rest) := by
  have hnone : rest.takeWhile Char.isDigit = [] ∧ rest.dropWhile Char.isDigit = rest := by
    cases rest with
    | nil => exact ⟨rfl, rfl⟩
    | cons c cs =>
      have hc : ¬ c.isDigit = true := by simp [hrest c rfl]
      exact ⟨List.takeWhile_cons_of_neg hc, List.dropWhile_cons_of_neg hc⟩
  rw [spanDigits, List.takeWhile_append_of_pos hwhole, List.dropWhile_append_of_pos hwhole,
    hnone.1, hnone.2, List.append_nil]

/-- What may follow the digits of a numeral: an exponent, and neither a digit nor a point before
it. -/
structure IsExponent (rest : List Char) (e : ℤ) : Prop where
  exponent?_eq : exponent? rest = some e
  no_digit : ∀ c ∈ rest.head?, c.isDigit = false
  no_point : rest.head? ≠ some '.'

/-- A numeral may end without an exponent. -/
theorem IsExponent.nil : IsExponent [] 0 := ⟨rfl, by simp, by simp⟩

/-- An exponent that is written with its sign. -/
theorem IsExponent.exponentChars (e : ℤ) : IsExponent (NumberStyle.exponentChars e) e := by
  refine ⟨?_, by simp [NumberStyle.exponentChars], by simp [NumberStyle.exponentChars]⟩
  have hdigits : spanDigits (Nat.toDigits 10 e.natAbs) = (Nat.toDigits 10 e.natAbs, []) := by
    conv_lhs => rw [← List.append_nil (Nat.toDigits 10 e.natAbs)]
    exact spanDigits_append
      (fun c hc => Nat.isDigit_of_mem_toDigits (by decide) (by decide) hc) (by simp)
  have hne : (Nat.toDigits 10 e.natAbs).isEmpty = false := by simp
  rw [NumberStyle.exponentChars, exponent?, if_pos (Or.inl rfl)]
  split_ifs with hsign
  · simp only [splitSign, hdigits, hne, ofDigits_toDigits]
    simp only [Bool.false_or, List.isEmpty_nil, Bool.not_true, Bool.false_eq_true, if_false,
      if_true, Option.some_inj]
    omega
  · simp only [splitSign, hdigits, hne, ofDigits_toDigits]
    simp only [Bool.false_or, List.isEmpty_nil, Bool.not_true, Bool.false_eq_true, if_false,
      Option.some_inj]
    omega

/-- A text is an unsigned decimal of the given size. -/
def Reads (cs : List Char) (q : ℚ) : Prop := ∃ d, decimal? cs = some d ∧ d.size = q

/-- A numeral without a point. -/
theorem reads_whole (hwhole : ∀ c ∈ whole, c.isDigit = true) (hne : whole ≠ [])
    (hrest : IsExponent rest e) : Reads (whole ++ rest) (ofDigits whole * 10 ^ e) := by
  have hfraction : spanFraction rest = ([], rest) := by
    unfold spanFraction
    split
    · exact absurd rfl hrest.no_point
    · rfl
  have hempty : whole.isEmpty = false := by simpa using hne
  refine ⟨⟨ofDigits whole, e⟩, ?_, rfl⟩
  rw [decimal?, spanDigits_append hwhole hrest.no_digit]
  simp [hfraction, hempty, hrest.exponent?_eq]

/-- A numeral with a point. -/
theorem reads_fraction (hwhole : ∀ c ∈ whole, c.isDigit = true) (hne : whole ≠ [])
    (hfraction : ∀ c ∈ fraction, c.isDigit = true) (hrest : IsExponent rest e) :
    Reads (whole ++ '.' :: (fraction ++ rest))
      (ofDigits (whole ++ fraction) * 10 ^ (e - fraction.length)) := by
  have hempty : whole.isEmpty = false := by simpa using hne
  have hpoint : spanFraction ('.' :: (fraction ++ rest)) = (fraction, rest) :=
    spanDigits_append hfraction hrest.no_digit
  refine ⟨⟨ofDigits (whole ++ fraction), e - fraction.length⟩, ?_, rfl⟩
  rw [decimal?, spanDigits_append hwhole (by simp)]
  simp [hpoint, hempty, hrest.exponent?_eq]

end Numeral

namespace NumberStyle

open Numeral

variable {style : NumberStyle} {digits : List Char}

/-- What whole numbers may carry after their digits for the text to be a numeral. -/
def BareSuffix (style : NumberStyle) : Prop :=
  style.wholeSuffix = [] ∨ style.wholeSuffix = ['.', '0']

/-- Digits in positional notation are read in full. Where the point is not among the digits there
are zeros between them and it, and these add to the coefficient if they are before the point. -/
theorem reads_positionalChars (hsuffix : style.BareSuffix)
    (hdigits : ∀ c ∈ digits, c.isDigit = true) (hne : digits ≠ []) (point : ℤ) :
    Reads (style.positionalChars digits point)
      (ofDigits digits * 10 ^ (point - digits.length)) := by
  unfold positionalChars
  split_ifs with hwhole hinside
  · obtain ⟨k, hk⟩ := Int.eq_ofNat_of_zero_le (sub_nonneg.mpr hwhole)
    have hpadded : ∀ c ∈ digits ++ List.replicate k '0', c.isDigit = true :=
      List.forall_mem_append.mpr ⟨hdigits, isDigit_of_mem_replicate_zero⟩
    have hpadded_ne : digits ++ List.replicate k '0' ≠ [] := by simp [hne]
    have hvalue : ofDigits (digits ++ List.replicate k '0') = ofDigits digits * 10 ^ k := by
      rw [ofDigits_append, ofDigits_replicate_zero, List.length_replicate, add_zero]
    rw [hk, Int.toNat_natCast, zpow_natCast]
    rcases hsuffix with hsuffix | hsuffix
    · have hreads := reads_whole hpadded hpadded_ne .nil
      rw [hvalue, zpow_zero, mul_one] at hreads
      rw [hsuffix]
      exact_mod_cast hreads
    · have hreads := reads_fraction hpadded hpadded_ne (isDigit_of_mem_replicate_zero (k := 1)) .nil
      rw [ofDigits_append, ofDigits_replicate_zero, hvalue, List.length_replicate, add_zero,
        pow_one, Nat.cast_one, zero_sub, zpow_neg_one, Nat.cast_mul (_ * _),
        Nat.cast_ofNat, mul_inv_cancel_right₀ (by norm_num)] at hreads
      rw [hsuffix]
      exact_mod_cast hreads
  · have hfront : ∀ c ∈ digits.take point.toNat, c.isDigit = true :=
      fun c hc => hdigits c (List.mem_of_mem_take hc)
    have hback : ∀ c ∈ digits.drop point.toNat, c.isDigit = true :=
      fun c hc => hdigits c (List.mem_of_mem_drop hc)
    have hfront_ne : digits.take point.toNat ≠ [] := by
      rw [ne_eq, List.take_eq_nil_iff]
      exact not_or.mpr ⟨by omega, hne⟩
    have hreads := reads_fraction hfront hfront_ne hback .nil
    rw [List.take_append_drop, List.append_nil, List.length_drop] at hreads
    have hexponent : point - digits.length = 0 - (digits.length - point.toNat : ℕ) := by omega
    rwa [hexponent]
  · have hpadded : ∀ c ∈ List.replicate (-point).toNat '0' ++ digits, c.isDigit = true :=
      List.forall_mem_append.mpr ⟨isDigit_of_mem_replicate_zero, hdigits⟩
    have hfront : ∀ c ∈ ['0'], c.isDigit = true := by simp
    have hreads := reads_fraction hfront (by simp) hpadded .nil
    rw [← List.append_assoc, ofDigits_append, List.append_nil] at hreads
    have hzero : ofDigits (['0'] ++ List.replicate (-point).toNat '0') = 0 :=
      ofDigits_replicate_zero ((-point).toNat + 1)
    rw [hzero, zero_mul, zero_add, List.length_append, List.length_replicate] at hreads
    have hexponent :
        point - digits.length = 0 - ((-point).toNat + digits.length : ℕ) := by omega
    rwa [hexponent]

/-- Digits in exponent notation are read in full. -/
theorem reads_scientificChars (hdigits : ∀ c ∈ digits, c.isDigit = true) (hne : digits ≠ [])
    (e : ℤ) :
    Reads (scientificChars digits e) (ofDigits digits * 10 ^ (e + 1 - digits.length)) := by
  match digits, hne with
  | [first], _ =>
    have hreads := reads_whole hdigits (by simp) (.exponentChars e)
    have hexponent : e + 1 - ([first].length : ℕ) = e := by simp
    rwa [hexponent]
  | first :: second :: more, _ =>
    have hsplit := List.forall_mem_cons.mp hdigits
    have hfirst : ∀ c ∈ [first], c.isDigit = true := List.forall_mem_singleton.mpr hsplit.1
    have hreads := reads_fraction hfirst (by simp) hsplit.2 (.exponentChars e)
    have hexponent : e + 1 - ((first :: second :: more).length : ℕ) =
        e - ((second :: more).length : ℕ) := by
      rw [List.length_cons]
      omega
    rwa [hexponent]

/-- **A decimal is read back with its size**, in every style that ends whole numbers with their
digits or with one zero after the point. -/
theorem reads_decimalChars (hsuffix : style.BareSuffix) (d : Decimal) :
    Reads (style.decimalChars d) d.size := by
  have hdigits : ∀ c ∈ Nat.toDigits 10 d.coefficient, c.isDigit = true :=
    fun c hc => Nat.isDigit_of_mem_toDigits (by decide) (by decide) hc
  have hne : Nat.toDigits 10 d.coefficient ≠ [] := Nat.toDigits_ne_nil
  unfold decimalChars
  dsimp only
  split_ifs
  · convert reads_positionalChars hsuffix hdigits hne _ using 1
    rw [ofDigits_toDigits, Decimal.size]
    congr 2
    ring
  · convert reads_scientificChars hdigits hne _ using 1
    rw [ofDigits_toDigits, Decimal.size]
    congr 2
    ring

end NumberStyle

section Floats

open Binary64 Float.Model

variable {x : Float}

/-- A number whose sign is turned around twice is the same number. -/
theorem neg_neg_float (x : Float) : - -x = x := by
  apply eq_of_unpacked_eq
  rw [unpacked_neg, unpacked_neg]
  cases unpacked x with
  | notANumber => rfl
  | infinity sign => cases sign <;> rfl
  | zero sign => cases sign <;> rfl
  | finite sign m e hm => cases sign <;> rfl

/-- A number with a size is read from every decimal that is rounded to this size. -/
theorem Decimal.toFloat_eq {d : Decimal} {q : ℚ} (hx : HasSize x q) (hd : rounded d.size = q) :
    d.toFloat = x :=
  (hasSize_decimal d).eq_of_eq hx hd

/-- A finite number is written as a sign and a decimal, and it is read from this sign and every
decimal of the same size. -/
theorem NumberStyle.exists_chars_eq (style : NumberStyle) (hx : x.isFinite = true) :
    ∃ negative d, style.chars x = signChars negative ++ style.decimalChars d ∧
      ∀ d' : Decimal, d'.size = d.size → d'.toSignedFloat negative = x := by
  have hfinite : (unpacked x).isFinite = true := hx
  have hshape : FloatShape.ofFloat x = .ofUnpacked (unpacked x) := rfl
  have hneg := unpacked_neg x
  rw [chars, hshape]
  cases hu : unpacked x with
  | notANumber => simp [hu, UnpackedFloat.isFinite] at hfinite
  | infinity sign => simp [hu, UnpackedFloat.isFinite] at hfinite
  | zero sign =>
    refine ⟨FloatShape.isNegative sign, ⟨0, 0⟩, rfl, fun d hd => ?_⟩
    have hzero : rounded d.size = (0 : ℚ) := by
      rw [hd, Decimal.size, Nat.cast_zero, zero_mul, rounded_zero]
      rfl
    cases sign with
    | positive => exact Decimal.toFloat_eq (.zero hu) hzero
    | negative =>
      rw [hu] at hneg
      exact (congrArg (-·) (Decimal.toFloat_eq (.zero hneg) hzero)).trans (neg_neg_float x)
  | finite sign m e hm =>
    let magnitude : Magnitude := ⟨m, e⟩
    refine ⟨FloatShape.isNegative sign, magnitude.shortest style.tie, rfl, fun d hd => ?_⟩
    have hrounded : rounded d.size = magnitude.size := by
      rw [hd]
      exact Magnitude.IsBinary64.rounded_shortest ⟨hm, canonical_of_unpacked hu⟩ _
    cases sign with
    | positive => exact Decimal.toFloat_eq (.finite hu) hrounded
    | negative =>
      rw [hu] at hneg
      exact (congrArg (-·) (Decimal.toFloat_eq (.finite hneg) hrounded)).trans (neg_neg_float x)

namespace Numeral

/-- An unsigned decimal has no sign to take off. -/
theorem splitSign_of_reads {cs : List Char} {q : ℚ} (h : Reads cs q) :
    splitSign cs = (false, cs) := by
  obtain ⟨d, hd, -⟩ := h
  unfold splitSign
  split
  · exact absurd hd (by simp [decimal?, spanDigits, spanFraction])
  · exact absurd hd (by simp [decimal?, spanDigits, spanFraction])
  · rfl

/-- **A finite number is read back from what is written**, bit for bit, in every style that ends
whole numbers with their digits or with one zero after the point. -/
theorem real?_chars {style : NumberStyle} (hsuffix : style.BareSuffix) (hx : x.isFinite = true) :
    real? (style.chars x) = some x := by
  obtain ⟨negative, d, hchars, hread⟩ := style.exists_chars_eq hx
  have hreads := NumberStyle.reads_decimalChars hsuffix d
  have hsplit : splitSign (style.chars x) = (negative, style.decimalChars d) := by
    rw [hchars]
    cases negative with
    | true => rfl
    | false => exact splitSign_of_reads hreads
  obtain ⟨d', hd', hsize⟩ := hreads
  simp only [real?, hsplit, hd', hread d' hsize]

/-- What is not finite is not read as a finite number. -/
theorem exists_real?_chars_plain (hx : x.isFinite = false) :
    ∃ y, real? (NumberStyle.plain.chars x) = some y ∧ y.isFinite = false := by
  have hfinite : (unpacked x).isFinite = false := hx
  have hshape : FloatShape.ofFloat x = .ofUnpacked (unpacked x) := rfl
  rw [NumberStyle.chars, hshape]
  cases hu : unpacked x with
  | notANumber => exact ⟨_, rfl, by decide +kernel⟩
  | infinity sign => cases sign <;> exact ⟨_, rfl, by decide +kernel⟩
  | zero sign => simp [hu, UnpackedFloat.isFinite] at hfinite
  | finite sign m e hm => simp [hu, UnpackedFloat.isFinite] at hfinite

end Numeral

end Floats

end FlowControl
