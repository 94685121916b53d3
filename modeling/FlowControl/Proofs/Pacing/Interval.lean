import FlowControl.Pacing
import FlowControl.Proofs.Binary64.Value
import FlowControl.Proofs.Decimal.Shortest
import FlowControl.Proofs.Flow.Rates

/-!
# The interval of a reservation

A number of seconds is turned into the nearest span, and no reservation occupies its slot for
longer than the longest interval, whatever the rate and the number of sends.
-/

namespace FlowControl

open Binary64 Float.Model Float.Model.UnpackedFloat

/-- A quotient of natural numbers is rounded like the rational. -/
theorem Decimal.cast_roundHalfEven {n d : ℕ} (hd : 0 < d) :
    (roundHalfEven n d : ℤ) = nearestInt (n / d) := by
  have hd' : (0 : ℚ) < d := by exact_mod_cast hd
  have hless : ((n % d : ℕ) : ℚ) / d < 1 / 2 ↔ 2 * (n % d) < d := by
    rw [div_lt_div_iff₀ hd' two_pos, one_mul, mul_comm]
    exact_mod_cast Iff.rfl
  have hmore : (1 : ℚ) / 2 < (n % d : ℕ) / d ↔ d < 2 * (n % d) := by
    rw [div_lt_div_iff₀ two_pos hd', one_mul, mul_comm]
    exact_mod_cast Iff.rfl
  unfold roundHalfEven nearestInt
  dsimp only
  rw [Rat.floor_natCast_div_natCast, Int.fract_div_natCast_eq_div_natCast_mod]
  simp only [hless, hmore]
  split_ifs <;> push_cast <;> omega

/-- A quotient of at most a whole number is rounded to at most that number. -/
theorem Decimal.roundHalfEven_le {n d k : ℕ} (hd : 0 < d) (h : n ≤ k * d) :
    roundHalfEven n d ≤ k := by
  have hle : (n : ℚ) / d ≤ (k : ℤ) := by
    rw [div_le_iff₀ (by exact_mod_cast hd)]
    exact_mod_cast h
  have hint := nearestInt_mono hle
  rw [← cast_roundHalfEven hd, nearestInt_intCast] at hint
  exact_mod_cast hint

namespace Span

variable {x : Float} {span : Span}

/-- A magnitude of seconds up to a whole number of them is a span up to that number. -/
theorem exists_ofMagnitude? {m : Magnitude} {k : ℕ} (hk : k < wordCount) (hm : m.size ≤ k) :
    ∃ span, ofMagnitude? m = some span ∧ span.nanos ≤ k * nanosPerSecond := by
  have hden : (0 : ℚ) < m.denominator := by exact_mod_cast m.denominator_pos
  rw [← m.numerator_div_denominator, div_le_iff₀ hden] at hm
  have hnum : m.numerator ≤ k * m.denominator := by exact_mod_cast hm
  have hle : Decimal.roundHalfEven (m.numerator * nanosPerSecond) m.denominator ≤
      k * nanosPerSecond := by
    apply Decimal.roundHalfEven_le m.denominator_pos
    calc m.numerator * nanosPerSecond ≤ k * m.denominator * nanosPerSecond :=
          Nat.mul_le_mul_right _ hnum
      _ = k * nanosPerSecond * m.denominator := Nat.mul_right_comm _ _ _
  have hlt : k * nanosPerSecond < wordCount * nanosPerSecond :=
    Nat.mul_lt_mul_of_pos_right hk (by decide)
  exact ⟨_, dif_pos (hle.trans_lt hlt), hle⟩

/-- The span of a magnitude of seconds is a whole number of nanoseconds next to it. -/
theorem nanos_of_ofMagnitude? {m : Magnitude} (h : ofMagnitude? m = some span) :
    (span.nanos : ℤ) = nearestInt (m.size * nanosPerSecond) := by
  have hnanos : span.nanos =
      Decimal.roundHalfEven (m.numerator * nanosPerSecond) m.denominator := by
    unfold ofMagnitude? at h
    dsimp only at h
    split_ifs at h
    exact congrArg nanos (Option.some_inj.mp h).symm
  rw [hnanos, Decimal.cast_roundHalfEven m.denominator_pos, Nat.cast_mul, mul_div_right_comm,
    m.numerator_div_denominator]

/-- Seconds of a value are turned into the span of no time, or into that of a magnitude. -/
theorem ofSeconds?_of_hasValue {p : ℚ} (hx : HasValue x p) :
    (ofSeconds? x = some zero ∧ p = 0) ∨
      ∃ m : Magnitude, ofSeconds? x = ofMagnitude? m ∧ m.size = p := by
  have hzero {sign : UnpackedFloat.Sign} (h : unpacked x = .zero sign) :
      ofSeconds? x = some zero := by
    have hshape : FloatShape.ofFloat x = .zero (FloatShape.isNegative sign) :=
      congrArg FloatShape.ofUnpacked h
    rw [ofSeconds?, hshape]
  rcases hx with hx | ⟨hx, hp⟩
  · rcases hx.zero_or_finite with ⟨hpositive, rfl⟩ | ⟨m, e, hm, hfinite, -, rfl⟩
    · exact Or.inl ⟨hzero hpositive, rfl⟩
    · have hshape : FloatShape.ofFloat x = .finite false ⟨m, e⟩ :=
        congrArg FloatShape.ofUnpacked hfinite
      right
      exact ⟨⟨m, e⟩, by rw [ofSeconds?, hshape], rfl⟩
  · exact Or.inl ⟨hzero hx, WithTop.coe_eq_zero.mp hp⟩

/-- What becomes a span has a value. -/
theorem exists_hasValue_of_ofSeconds? (h : ofSeconds? x = some span) :
    ∃ p : ℚ, HasValue x p := by
  unfold ofSeconds? FloatShape.ofFloat at h
  cases hx : x.toModel.unpack with
  | notANumber => simp [hx, FloatShape.ofUnpacked] at h
  | infinity sign => simp [hx, FloatShape.ofUnpacked] at h
  | zero sign =>
    cases sign with
    | positive => exact ⟨0, HasSize.hasValue (.zero hx)⟩
    | negative => exact ⟨0, Or.inr ⟨hx, rfl⟩⟩
  | finite sign m e hm =>
    cases sign with
    | positive => exact ⟨_, HasSize.hasValue (.finite hx)⟩
    | negative => simp [hx, FloatShape.ofUnpacked, FloatShape.isNegative] at h

/-- A number of seconds up to a whole number of them is a span up to that number. -/
theorem exists_ofSeconds? {p : ℚ} {k : ℕ} (hk : k < wordCount) (hx : HasValue x p) (hp : p ≤ k) :
    ∃ span, ofSeconds? x = some span ∧ span.nanos ≤ k * nanosPerSecond := by
  rcases ofSeconds?_of_hasValue hx with ⟨hzero, -⟩ | ⟨m, hm, rfl⟩
  · exact ⟨zero, hzero, Nat.zero_le _⟩
  · rw [hm]
    exact exists_ofMagnitude? hk hp

/-- The span of a number of seconds is the whole number of nanoseconds nearest to it. -/
theorem nanos_of_ofSeconds? {p : ℚ} (hx : HasValue x p) (h : ofSeconds? x = some span) :
    (span.nanos : ℤ) = nearestInt (p * nanosPerSecond) := by
  rcases ofSeconds?_of_hasValue hx with ⟨hzero, rfl⟩ | ⟨m, hm, rfl⟩
  · obtain rfl := Option.some_inj.mp (hzero.symm.trans h)
    simp [zero, nearestInt]
  · exact nanos_of_ofMagnitude? (hm ▸ h)

/-- A whole number of seconds below `2 ^ 53` is exact. -/
theorem hasSize_seconds_ofSecs {secs : UInt64} (h : secs.toNat ≤ 2 ^ 53) :
    HasSize (ofSecs secs).seconds (secs.toNat : ℚ) := by
  have hsecs : (ofSecs secs).secs = secs.toNat :=
    Nat.mul_div_cancel _ (by decide)
  have hrest : (ofSecs secs).subsecNanos = 0 := Nat.mul_mod_left _ _
  have hsize := (ofSecs secs).hasSize_seconds
  rw [secondsSize, hsecs, hrest, Nat.cast_zero, zero_div, nearest_zero, add_zero,
    (Representable.natCast h).nearest_eq, (Representable.natCast h).nearest_eq] at hsize
  exact hsize

end Span

namespace Pacing

variable {rate : Float}

/-- The seconds of the longest interval. -/
theorem hasSize_longest : HasSize longest.seconds (60 : ℚ) :=
  Span.hasSize_seconds_ofSecs (show (60 : UInt64).toNat ≤ 2 ^ 53 by decide)

/-- A rate that permits nothing has an interval, the longest one. -/
theorem interval?_of_nothing (h : rate.isNaN ∨ rate ≤ 0) (permits : UInt32) :
    interval? rate permits = some longest :=
  if_pos h

/-- A rate that permits nothing has the longest interval. -/
theorem interval_of_nothing (h : rate.isNaN ∨ rate ≤ 0) (permits : UInt32) :
    interval rate permits = longest := by
  rw [interval, interval?_of_nothing h, Option.getD_some]

/-- **No reservation occupies its slot for longer than the longest interval.** -/
theorem interval_le_longest (rate : Float) (permits : UInt32) :
    (interval rate permits).nanos ≤ longest.nanos := by
  unfold interval interval?
  dsimp only
  split_ifs with hno hlong
  · exact le_rfl
  · exact le_rfl
  · generalize permits.toFloat / rate = seconds at hlong
    cases hspan : Span.ofSeconds? seconds with
    | none => exact le_rfl
    | some span =>
      obtain ⟨p, hp⟩ := Span.exists_hasValue_of_ofSeconds? hspan
      rw [hasSize_longest.hasValue.le_iff hp, WithTop.coe_le_coe, not_le] at hlong
      obtain ⟨span', hspan', hle⟩ :=
        Span.exists_ofSeconds? (k := 60) (by decide) hp (by exact_mod_cast hlong.le)
      obtain rfl := Option.some_inj.mp (hspan.symm.trans hspan')
      exact hle

end Pacing

end FlowControl
