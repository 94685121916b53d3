import FlowControl.Proofs.Binary64.Size

/-!
# Arithmetic of sizes

Sums, products and quotients of finite sizes, and the sizes of machine words, are exact results
rounded once. A number that is added to one with a clear sign bit never gives a zero whose sign
bit is set.
-/

namespace FlowControl.Binary64

open Float.Model Float.Model.UnpackedFloat

section Rounding

variable {p q y : ℚ}

/-- Rounding keeps the order of sizes. -/
theorem rounded_mono (hp : 0 ≤ p) (h : p ≤ q) : rounded p ≤ rounded q := by
  have hmono := nearest_mono hp h
  unfold rounded
  split_ifs with hsmall hlarge hlarge
  · exact WithTop.coe_le_coe.mpr hmono
  · exact le_top
  · exact absurd (hmono.trans_lt hlarge) hsmall
  · exact le_rfl

/-- A representable size that is not too large is kept. -/
theorem rounded_eq (hy : Representable y) (hlt : y < 2 ^ 1024) : rounded y = y := by
  rw [rounded, hy.nearest_eq, if_pos hlt]

/-- What lies below a size is rounded to no more. -/
theorem rounded_le (hy : Representable y) (hlt : y < 2 ^ 1024) (hq : 0 ≤ q) (h : q ≤ y) :
    rounded q ≤ y := by
  rw [← rounded_eq hy hlt]
  exact rounded_mono hq h

/-- What lies above a size is rounded to no less. -/
theorem le_rounded (hy : Representable y) (hlt : y < 2 ^ 1024) (h : y ≤ q) : y ≤ rounded q := by
  rw [← rounded_eq hy hlt]
  exact rounded_mono hy.nonneg h

/-- What is far from too large is rounded to a finite size. -/
theorem rounded_eq_nearest {n : ℕ} (hn : n < 1024) (hq : 0 ≤ q) (h : q ≤ 2 ^ n) :
    rounded q = nearest q := by
  refine if_pos (((Representable.two_pow n).nearest_le hq h).trans_lt ?_)
  exact pow_lt_pow_right₀ one_lt_two hn

/-- Zero is not rounded. -/
theorem rounded_zero : rounded 0 = 0 := rounded_eq Representable.zero (by positivity)

end Rounding

/-- The sum of two significands that are brought to the same last place. -/
theorem decreaseExponent_fst (m : ℕ) {e target : ℤ} (h : target ≤ e) :
    ((decreaseExponent m e target).1 : ℚ) * 2 ^ target = m * 2 ^ e := by
  have he : e = (e - target).toNat + target := by omega
  conv_rhs => rw [he, zpow_add₀ two_ne_zero, zpow_natCast]
  rw [decreaseExponent, Nat.shiftLeft_eq]
  push_cast
  ring

/-- A significand that is shifted to a lower last place is still positive. -/
theorem decreaseExponent_fst_pos {m : ℕ} (e target : ℤ) (hm : 0 < m) :
    0 < (decreaseExponent m e target).1 := by
  rw [decreaseExponent, Nat.shiftLeft_eq]
  exact Nat.mul_pos hm (Nat.two_pow_pos _)

/-- A positive significand is rounded as it is. -/
theorem rounds_normalize_of_pos {n e : ℤ} {zeroSign : Sign} (hn : 0 < n) :
    Rounds .positive (n * 2 ^ e) (UnpackedFloat.normalize Format.binary64 n e zeroSign) := by
  obtain ⟨m, rfl⟩ := Int.eq_ofNat_of_zero_le hn.le
  rw [UnpackedFloat.normalize, Int.compare_eq_gt.mpr hn]
  exact rounds_round (by omega)

/-- A negative significand is rounded without its sign. -/
theorem rounds_normalize_of_neg {n e : ℤ} {zeroSign : Sign} (hn : n < 0) :
    Rounds .negative ((-n : ℤ) * 2 ^ e) (UnpackedFloat.normalize Format.binary64 n e zeroSign) := by
  obtain ⟨m, hm⟩ := Int.eq_ofNat_of_zero_le (by omega : 0 ≤ -n)
  rw [UnpackedFloat.normalize, Int.compare_eq_lt.mpr hn, hm]
  exact rounds_round (by omega)

namespace HasSize

variable {x y : Float} {p q : ℚ}

/-- The sum of two sizes is rounded once. -/
theorem add (hx : HasSize x p) (hy : HasSize y q) : HasSize (x + y) (rounded (p + q)) := by
  have hsum : x + y =
      .ofModel (.pack (UnpackedFloat.add Format.binary64 (unpacked x) (unpacked y))) := rfl
  rcases hx.zero_or_finite with ⟨hx', rfl⟩ | ⟨m₁, e₁, hm₁, hx', h₁, hp⟩
  · have hsame : UnpackedFloat.add Format.binary64 (unpacked x) (unpacked y) = unpacked y := by
      rw [hx']
      rcases hy.zero_or_finite with ⟨hy', _⟩ | ⟨m₂, e₂, hm₂, hy', _, _⟩ <;> rw [hy'] <;> rfl
    rw [hsum, hsame, pack_unpacked, zero_add, rounded_eq hy.representable hy.lt_two_pow]
    exact hy
  rcases hy.zero_or_finite with ⟨hy', rfl⟩ | ⟨m₂, e₂, hm₂, hy', h₂, hq⟩
  · have hsame : UnpackedFloat.add Format.binary64 (unpacked x) (unpacked y) = unpacked x := by
      rw [hx', hy']
      rfl
    rw [hsum, hsame, pack_unpacked, add_zero, rounded_eq hx.representable hx.lt_two_pow]
    exact hx
  · rw [hsum, hx', hy']
    have hp' := decreaseExponent_fst m₁ (min_le_left e₁ e₂)
    have hq' := decreaseExponent_fst m₂ (min_le_right e₁ e₂)
    have hvalue : p + q = (((decreaseExponent m₁ e₁ (min e₁ e₂)).1 +
        (decreaseExponent m₂ e₂ (min e₁ e₂)).1 : ℤ) : ℚ) * 2 ^ min e₁ e₂ := by
      push_cast
      rw [add_mul, hp', hq', hp, hq]
    rw [hvalue]
    have hpos₁ := decreaseExponent_fst_pos e₁ (min e₁ e₂) hm₁
    exact hasSize_of_rounds (rounds_normalize_of_pos (by omega))

/-- The product of two sizes is rounded once. -/
theorem mul (hx : HasSize x p) (hy : HasSize y q) : HasSize (x * y) (rounded (p * q)) := by
  have hproduct : x * y =
      .ofModel (.pack (UnpackedFloat.mul Format.binary64 (unpacked x) (unpacked y))) := rfl
  rcases hx.zero_or_finite with ⟨hx', rfl⟩ | ⟨m₁, e₁, hm₁, hx', h₁, rfl⟩
  · rw [zero_mul, rounded_zero, hproduct, hx']
    rcases hy.zero_or_finite with ⟨hy', _⟩ | ⟨_, _, _, hy', _, _⟩ <;> rw [hy'] <;>
      exact hasSize_zero
  rcases hy.zero_or_finite with ⟨hy', rfl⟩ | ⟨m₂, e₂, hm₂, hy', h₂, rfl⟩
  · rw [mul_zero, rounded_zero, hproduct, hx', hy']
    exact hasSize_zero
  · rw [hproduct, hx', hy']
    exact hasSize_of_rounds (rounds_mul h₁ h₂ hm₁ hm₂)

/-- The quotient of two sizes is rounded once. -/
theorem div (hx : HasSize x p) (hy : HasSize y q) (hq : 0 < q) :
    HasSize (x / y) (rounded (p / q)) := by
  have hquotient : x / y =
      .ofModel (.pack (UnpackedFloat.div Format.binary64 (unpacked x) (unpacked y))) := rfl
  rcases hy.zero_or_finite with ⟨_, rfl⟩ | ⟨m₂, e₂, hm₂, hy', h₂, rfl⟩
  · exact absurd rfl hq.ne
  rcases hx.zero_or_finite with ⟨hx', rfl⟩ | ⟨m₁, e₁, hm₁, hx', h₁, rfl⟩
  · rw [zero_div, rounded_zero, hquotient, hx', hy']
    exact hasSize_zero
  · rw [hquotient, hx', hy']
    exact hasSize_of_rounds (rounds_div hm₁ hm₂)

end HasSize

/-- A machine word is rounded to a number. -/
theorem hasSize_toFloat (n : UInt64) : HasSize n.toFloat (nearest n.toNat) := by
  have hword : n.toFloat =
      .ofModel (.pack (UnpackedFloat.normalize Format.binary64 n.toNat 0 .positive)) := rfl
  rcases Nat.eq_zero_or_pos n.toNat with hzero | hpos
  · rw [hword, hzero, Nat.cast_zero, Nat.cast_zero, nearest_zero]
    exact hasSize_zero
  · have hrounds : Rounds .positive ((n.toNat : ℤ) * 2 ^ (0 : ℤ))
        (UnpackedFloat.normalize Format.binary64 n.toNat 0 .positive) :=
      rounds_normalize_of_pos (by exact_mod_cast hpos)
    rw [zpow_zero, mul_one, Int.cast_natCast] at hrounds
    have hle : (n.toNat : ℚ) ≤ 2 ^ 64 := by exact_mod_cast n.toNat_lt.le
    rw [← rounded_eq_nearest (by norm_num) (Nat.cast_nonneg _) hle]
    exact hasSize_of_rounds hrounds

/-- A word of at most 53 bits is exact. -/
theorem hasSize_toFloat_of_le {n : UInt64} (h : n.toNat ≤ 2 ^ 53) :
    HasSize n.toFloat (n.toNat : ℚ) := by
  have hsize := hasSize_toFloat n
  rwa [(Representable.natCast h).nearest_eq] at hsize

/-- A number that is a word has the size of this word. -/
theorem hasSize_of_eq_word {x : Float} {q : ℚ} (n : UInt64) (hx : x = n.toFloat)
    (hn : n.toNat ≤ 2 ^ 53) (hq : (n.toNat : ℚ) = q) : HasSize x q := by
  subst hx hq
  exact hasSize_toFloat_of_le hn

/-- The size of one. -/
theorem hasSize_one : HasSize 1 1 :=
  hasSize_of_eq_word 1 (by decide) (by decide) Nat.cast_one

/-- The size of two. -/
theorem hasSize_two : HasSize 2 (2 : ℚ) :=
  hasSize_of_eq_word 2 (by decide) (by decide) Nat.cast_ofNat

/-- The size of `2 ^ 52`, the least number whose last place is one. -/
theorem hasSize_two_pow_fifty_two : HasSize 4503599627370496 (2 ^ 52 : ℚ) :=
  hasSize_of_eq_word 4503599627370496 (by decide +kernel) (by decide)
    ((Nat.cast_ofNat (n := 4503599627370496)).trans (by norm_num))

/-- What is no smaller than the least positive number is not rounded to a zero. -/
theorem ne_zero_of_rounds {u : UnpackedFloat} {sign zeroSign : Sign} {q : ℚ}
    (h : Rounds sign q u) (hq : 2 ^ (-1074 : ℤ) ≤ q) :
    unpacked (.ofModel (.pack u)) ≠ .zero zeroSign := by
  cases u with
  | notANumber => exact h.elim
  | infinity _ => exact h.elim
  | zero _ => exact absurd h.2 (nearest_pos hq).ne'
  | finite _ m e _ =>
    obtain ⟨_, hlt, hleast, hnormal, _⟩ := h
    rw [unpacked_pack]
    by_cases he : e ≤ 971
    · rw [unpack_pack ⟨hlt, hleast, he, hnormal⟩]
      nofun
    · rw [pack_of_lt (by omega), unpack_pack_infinity]
      nofun

/-- A whole number of last places is never rounded to a zero whose sign bit is set. -/
theorem normalize_ne_neg_zero {n e : ℤ} (he : -1074 ≤ e) :
    unpacked (.ofModel (.pack (UnpackedFloat.normalize Format.binary64 n e .positive))) ≠
      .zero .negative := by
  have hleast {k : ℤ} (hk : 0 < k) : (2 : ℚ) ^ (-1074 : ℤ) ≤ k * 2 ^ e :=
    calc (2 : ℚ) ^ (-1074 : ℤ) ≤ 2 ^ e := zpow_le_zpow_right₀ one_le_two he
      _ ≤ k * 2 ^ e := le_mul_of_one_le_left (zpow_pos two_pos e).le (by exact_mod_cast hk)
  rcases lt_trichotomy n 0 with hneg | rfl | hpos
  · exact ne_zero_of_rounds (rounds_normalize_of_neg hneg) (hleast (by omega))
  · have hzero : UnpackedFloat.normalize Format.binary64 0 e .positive = .zero .positive := rfl
    rw [hzero]
    nofun
  · exact ne_zero_of_rounds (rounds_normalize_of_pos hpos) (hleast hpos)

/-- A number added to one with a clear sign bit is never a zero whose sign bit is set. -/
theorem HasSize.add_ne_neg_zero {x : Float} {s : WithTop ℚ} (hx : HasSize x s) (y : Float) :
    unpacked (x + y) ≠ .zero .negative := by
  have hsum : x + y =
      .ofModel (.pack (UnpackedFloat.add Format.binary64 (unpacked x) (unpacked y))) := rfl
  have hinfinity (sign : Sign) :
      unpacked (.ofModel (.pack (.infinity sign))) ≠ .zero .negative := by
    rw [unpacked_pack, unpack_pack_infinity]
    nofun
  have hnan : unpacked (.ofModel (.pack .notANumber)) ≠ .zero .negative := nofun
  rw [hsum]
  cases hx with
  | infinite hx =>
    rw [hx]
    cases unpacked y with
    | notANumber => exact hnan
    | infinity sign => cases sign with
      | positive => exact hinfinity .positive
      | negative => exact hnan
    | zero _ => exact hinfinity .positive
    | finite _ _ _ _ => exact hinfinity .positive
  | zero hx =>
    by_cases hy : unpacked y = .zero .negative
    · rw [hx, hy]
      nofun
    · have hsame : UnpackedFloat.add Format.binary64 (.zero .positive) (unpacked y) =
          unpacked y := by
        cases hy' : unpacked y with
        | zero sign => cases sign with
          | positive => rfl
          | negative => exact absurd hy' hy
        | _ => rfl
      rw [hx, hsame, pack_unpacked]
      exact hy
  | finite hx =>
    cases hy : unpacked y with
    | notANumber => rw [hx]; exact hnan
    | infinity sign => rw [hx]; exact hinfinity sign
    | zero _ =>
      have hsame : UnpackedFloat.add Format.binary64 (unpacked x) (.zero ‹_›) = unpacked x := by
        rw [hx]
        rfl
      rw [hsame, pack_unpacked, hx]
      nofun
    | finite sign m₂ e₂ hm₂ =>
      rw [hx]
      have hleast₁ := (canonical_of_unpacked hx).least_le
      have hleast₂ := (canonical_of_unpacked hy).least_le
      exact normalize_ne_neg_zero (le_min hleast₁ hleast₂)

/-- A product of numbers with clear sign bits is never a zero whose sign bit is set. An infinity
times zero is no number. -/
theorem HasSize.mul_ne_neg_zero {x y : Float} {p : ℚ} {s : WithTop ℚ} (hx : HasSize x p)
    (hy : HasSize y s) : unpacked (x * y) ≠ .zero .negative := by
  by_cases hs : s = ⊤
  · obtain rfl := hy.eq_of_eq hasSize_unbounded hs
    have hproduct : x * unbounded =
        .ofModel (.pack (UnpackedFloat.mul Format.binary64 (unpacked x) (.infinity .positive))) :=
      rfl
    rw [hproduct]
    rcases hx.zero_or_finite with ⟨hx', _⟩ | ⟨_, _, _, hx', _, _⟩
    · rw [hx']
      nofun
    · rw [hx']
      exact hasSize_unbounded.ne_neg_zero
  · lift s to ℚ using hs
    exact (hx.mul hy).ne_neg_zero

end FlowControl.Binary64
