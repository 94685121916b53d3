import Mathlib.Algebra.Order.Field.Power
import Mathlib.Data.Int.Log
import Mathlib.Data.Rat.Floor
import Mathlib.Tactic.Linarith
import Mathlib.Tactic.NormNum
import Mathlib.Tactic.Positivity
import Mathlib.Tactic.Ring

/-!
# Rounding to 53 binary digits

The number nearest to a rational among those with 53 binary digits and a last place of at least
`2 ^ -1074`, a tie going to the even one. This is the rounding of binary64 arithmetic, before
what is too large becomes infinite. Rounding keeps the order, and it keeps on its side of every
representable number; all that is later proved of sums, products and quotients rests on these
two facts.
-/

namespace FlowControl.Binary64

/-- The integer nearest to a rational, of two equally near ones the even one. -/
def nearestInt (q : ℚ) : ℤ :=
  if Int.fract q < 1 / 2 then ⌊q⌋
  else if 1 / 2 < Int.fract q then ⌊q⌋ + 1
  else ⌊q⌋ + ⌊q⌋ % 2

/-- A rational is rounded to its floor or above. -/
theorem floor_le_nearestInt (q : ℚ) : ⌊q⌋ ≤ nearestInt q := by
  unfold nearestInt
  split_ifs <;> omega

/-- A rational is rounded to no more than the integer after its floor. -/
theorem nearestInt_le_floor_add_one (q : ℚ) : nearestInt q ≤ ⌊q⌋ + 1 := by
  unfold nearestInt
  split_ifs <;> omega

/-- An integer is not rounded. -/
@[simp] theorem nearestInt_intCast (n : ℤ) : nearestInt (n : ℚ) = n := by
  simp [nearestInt]

/-- Rounding to integers keeps the order. Only numbers with the same whole part need a look at
their fractions. -/
theorem nearestInt_mono {p q : ℚ} (h : p ≤ q) : nearestInt p ≤ nearestInt q := by
  have hfloor : ⌊p⌋ ≤ ⌊q⌋ := Int.floor_mono h
  rcases hfloor.lt_or_eq with hlt | heq
  · have hp := nearestInt_le_floor_add_one p
    have hq := floor_le_nearestInt q
    omega
  · have hfract : Int.fract p ≤ Int.fract q := by
      rw [Int.fract, Int.fract, heq]
      linarith
    unfold nearestInt
    rw [heq]
    split_ifs <;> first | omega | (exfalso; linarith)

/-- The exponent of the last place of numbers that are about as large as a positive one. -/
def lastPlace (q : ℚ) : ℤ := max (Int.log 2 q - 52) (-1074)

/-- The representable number nearest to one that is not negative, a tie going to the even
one. -/
def nearest (q : ℚ) : ℚ := nearestInt (q / 2 ^ lastPlace q) * 2 ^ lastPlace q

/-- A number with 53 binary digits and a last place of at least `2 ^ -1074`. -/
def Representable (q : ℚ) : Prop :=
  ∃ (m : ℕ) (e : ℤ), m < 2 ^ 53 ∧ -1074 ≤ e ∧ q = m * 2 ^ e

/-- Powers of two are positive. -/
private theorem two_zpow_pos (e : ℤ) : (0 : ℚ) < 2 ^ e := zpow_pos two_pos e

/-- The power of a sum is the product of the powers. -/
private theorem two_zpow_add (a b : ℤ) : (2 : ℚ) ^ (a + b) = 2 ^ a * 2 ^ b :=
  zpow_add₀ two_ne_zero a b

/-- A higher exponent has no smaller power of two. -/
private theorem two_zpow_le {a b : ℤ} (h : a ≤ b) : (2 : ℚ) ^ a ≤ 2 ^ b :=
  zpow_le_zpow_right₀ one_le_two h

/-- No last place is below the least one. -/
theorem neg_1074_le_lastPlace (q : ℚ) : -1074 ≤ lastPlace q := le_max_right _ _

/-- A positive number is less than `2 ^ 53` of its last places. -/
theorem lt_two_zpow_lastPlace (q : ℚ) : q < 2 ^ (lastPlace q + 53) := by
  have hlog : q < ((2 : ℕ) : ℚ) ^ (Int.log 2 q + 1) := Int.lt_zpow_succ_log_self one_lt_two q
  have hle : Int.log 2 q + 1 ≤ lastPlace q + 53 := by
    have := le_max_left (Int.log 2 q - 52) (-1074)
    unfold lastPlace
    omega
  exact hlog.trans_le (by exact_mod_cast two_zpow_le hle)

/-- Unless its last place is the least one, a positive number is at least `2 ^ 52` of them. -/
theorem two_zpow_lastPlace_le {q : ℚ} (hq : 0 < q) (h : lastPlace q ≠ -1074) :
    2 ^ (lastPlace q + 52) ≤ q := by
  have heq : lastPlace q + 52 = Int.log 2 q := by
    unfold lastPlace at h ⊢
    omega
  rw [heq]
  exact_mod_cast Int.zpow_log_le_self one_lt_two hq

/-- A larger number has no finer last place. -/
theorem lastPlace_mono {p q : ℚ} (hp : 0 < p) (h : p ≤ q) : lastPlace p ≤ lastPlace q :=
  max_le_max_right _ (Int.sub_le_sub_right (Int.log_mono_right hp h) 52)

/-- Zero is not rounded. -/
theorem nearest_zero : nearest 0 = 0 := by
  simp [nearest, nearestInt]

/-- What lies below a whole number of last places is rounded to no more. -/
theorem nearest_le_of_le_mul {q : ℚ} {n : ℤ} (h : q ≤ n * 2 ^ lastPlace q) :
    nearest q ≤ n * 2 ^ lastPlace q := by
  have hdiv : q / 2 ^ lastPlace q ≤ n := (div_le_iff₀ (two_zpow_pos _)).mpr h
  have hint : nearestInt (q / 2 ^ lastPlace q) ≤ n := by simpa using nearestInt_mono hdiv
  exact mul_le_mul_of_nonneg_right (by exact_mod_cast hint) (two_zpow_pos _).le

/-- What lies above a whole number of last places is rounded to no less. -/
theorem mul_le_nearest_of_mul_le {q : ℚ} {n : ℤ} (h : n * 2 ^ lastPlace q ≤ q) :
    n * 2 ^ lastPlace q ≤ nearest q := by
  have hdiv : (n : ℚ) ≤ q / 2 ^ lastPlace q := (le_div_iff₀ (two_zpow_pos _)).mpr h
  have hint : n ≤ nearestInt (q / 2 ^ lastPlace q) := by simpa using nearestInt_mono hdiv
  exact mul_le_mul_of_nonneg_right (by exact_mod_cast hint) (two_zpow_pos _).le

/-- What is not negative is not rounded to something negative. -/
theorem nearest_nonneg {q : ℚ} (hq : 0 ≤ q) : 0 ≤ nearest q := by
  have h := mul_le_nearest_of_mul_le (q := q) (n := 0) (by simpa using hq)
  simpa using h

namespace Representable

/-- Zero is representable. -/
theorem zero : Representable 0 := ⟨0, 0, by norm_num, by norm_num, by norm_num⟩

/-- What is representable is not negative. -/
theorem nonneg {y : ℚ} (hy : Representable y) : 0 ≤ y := by
  obtain ⟨m, e, _, _, rfl⟩ := hy
  exact mul_nonneg (Nat.cast_nonneg m) (two_zpow_pos e).le

/-- A significand with its last place. -/
theorem of_mul {m : ℕ} {e : ℤ} (hm : m ≤ 2 ^ 53) (he : -1074 ≤ e) :
    Representable (m * 2 ^ e) := by
  rcases hm.lt_or_eq with hlt | rfl
  · exact ⟨m, e, hlt, he, rfl⟩
  · refine ⟨2 ^ 52, e + 1, by norm_num, by omega, ?_⟩
    rw [two_zpow_add]
    push_cast
    ring

/-- Whole numbers up to `2 ^ 53`. -/
theorem natCast {m : ℕ} (hm : m ≤ 2 ^ 53) : Representable m := by
  simpa using of_mul hm (e := 0) (by norm_num)

/-- The powers of two. -/
theorem two_zpow {e : ℤ} (he : -1074 ≤ e) : Representable (2 ^ e) := by
  simpa using of_mul (m := 1) (by norm_num) he

/-- The powers of two that are whole numbers. -/
theorem two_pow (n : ℕ) : Representable (2 ^ n) := by
  rw [← zpow_natCast]
  exact two_zpow (by omega)

/-- One is representable. -/
theorem one : Representable 1 := by simpa using two_pow 0

/-- Twice a representable number. -/
theorem two_mul {y : ℚ} (hy : Representable y) : Representable (2 * y) := by
  obtain ⟨m, e, hm, he, rfl⟩ := hy
  refine ⟨m, e + 1, hm, by omega, ?_⟩
  rw [two_zpow_add]
  ring

/-- A representable number is a whole number of any last place that is not coarser than its
own. -/
private theorem eq_mul_of_le {m : ℕ} {e place : ℤ} (h : place ≤ e) :
    ∃ n : ℤ, (m : ℚ) * 2 ^ e = n * 2 ^ place := by
  refine ⟨m * 2 ^ (e - place).toNat, ?_⟩
  have he : e = (e - place).toNat + place := by omega
  conv_lhs => rw [he, two_zpow_add, zpow_natCast]
  push_cast
  ring

/-- What lies below a representable number is rounded to no more. -/
theorem nearest_le {q y : ℚ} (hy : Representable y) (hq : 0 ≤ q) (h : q ≤ y) :
    nearest q ≤ y := by
  rcases hq.eq_or_lt with rfl | hpos
  · rwa [nearest_zero]
  obtain ⟨m, e, hm, he, rfl⟩ := hy
  have hplace : lastPlace q ≤ e := by
    by_contra hlt
    have hlow := two_zpow_lastPlace_le hpos (by omega)
    have hhigh : (m : ℚ) * 2 ^ e < 2 ^ (lastPlace q + 52) := by
      calc (m : ℚ) * 2 ^ e < 2 ^ 53 * 2 ^ e :=
            mul_lt_mul_of_pos_right (by exact_mod_cast hm) (two_zpow_pos e)
        _ = 2 ^ (53 + e) := (two_zpow_add 53 e).symm
        _ ≤ 2 ^ (lastPlace q + 52) := two_zpow_le (by omega)
    linarith
  obtain ⟨n, hn⟩ := eq_mul_of_le hplace
  rw [hn] at h ⊢
  exact nearest_le_of_le_mul h

/-- What lies above a representable number is rounded to no less. -/
theorem le_nearest {q y : ℚ} (hy : Representable y) (hq : 0 ≤ q) (h : y ≤ q) :
    y ≤ nearest q := by
  rcases hq.eq_or_lt with rfl | hpos
  · rwa [nearest_zero]
  obtain ⟨m, e, hm, he, rfl⟩ := hy
  by_cases hplace : lastPlace q ≤ e
  · obtain ⟨n, hn⟩ := eq_mul_of_le hplace
    rw [hn] at h ⊢
    exact mul_le_nearest_of_mul_le h
  · have hlow := two_zpow_lastPlace_le hpos (by omega)
    have hpower : (2 : ℚ) ^ (lastPlace q + 52) = (2 ^ 52 : ℤ) * 2 ^ lastPlace q := by
      rw [add_comm, two_zpow_add]
      norm_num
    calc (m : ℚ) * 2 ^ e ≤ 2 ^ 53 * 2 ^ e :=
          mul_le_mul_of_nonneg_right (by exact_mod_cast hm.le) (two_zpow_pos e).le
      _ = 2 ^ (53 + e) := (two_zpow_add 53 e).symm
      _ ≤ 2 ^ (lastPlace q + 52) := two_zpow_le (by omega)
      _ ≤ nearest q := by
        rw [hpower] at hlow ⊢
        exact mul_le_nearest_of_mul_le hlow

/-- Rounding keeps what is representable. -/
theorem nearest_eq {y : ℚ} (hy : Representable y) : nearest y = y :=
  le_antisymm (hy.nearest_le hy.nonneg le_rfl) (hy.le_nearest hy.nonneg le_rfl)

end Representable

/-- In its last places a positive number is rounded to a whole number of at most `2 ^ 53`. -/
theorem exists_nearestInt_eq {q : ℚ} (hq : 0 ≤ q) :
    ∃ m : ℕ, m ≤ 2 ^ 53 ∧ nearestInt (q / 2 ^ lastPlace q) = m := by
  have hpos := two_zpow_pos (lastPlace q)
  have hlow : 0 ≤ nearestInt (q / 2 ^ lastPlace q) := by
    have hdiv : ((0 : ℤ) : ℚ) ≤ q / 2 ^ lastPlace q := by
      rw [Int.cast_zero]
      exact div_nonneg hq hpos.le
    simpa only [nearestInt_intCast] using nearestInt_mono hdiv
  have hhigh : nearestInt (q / 2 ^ lastPlace q) ≤ 2 ^ 53 := by
    have hlt : q / 2 ^ lastPlace q ≤ ((2 ^ 53 : ℤ) : ℚ) := by
      rw [div_le_iff₀ hpos]
      have h := (lt_two_zpow_lastPlace q).le
      rw [add_comm, two_zpow_add] at h
      exact_mod_cast h
    simpa only [nearestInt_intCast] using nearestInt_mono hlt
  exact ⟨(nearestInt (q / 2 ^ lastPlace q)).toNat, by omega, by omega⟩

/-- What is rounded is representable. -/
theorem representable_nearest {q : ℚ} (hq : 0 ≤ q) : Representable (nearest q) := by
  obtain ⟨m, hm, hint⟩ := exists_nearestInt_eq hq
  rw [nearest, hint, Int.cast_natCast]
  exact .of_mul hm (neg_1074_le_lastPlace q)

/-- In its last places a positive number is rounded to at least `2 ^ 52`, unless its last place is
the least one. -/
theorem two_pow_le_nearestInt {q : ℚ} (hq : 0 < q) (h : lastPlace q ≠ -1074) :
    2 ^ 52 ≤ nearestInt (q / 2 ^ lastPlace q) := by
  have hlow := two_zpow_lastPlace_le hq h
  rw [add_comm, two_zpow_add] at hlow
  have hle : ((2 ^ 52 : ℤ) : ℚ) ≤ q / 2 ^ lastPlace q := by
    rw [le_div_iff₀ (two_zpow_pos _)]
    exact_mod_cast hlow
  simpa only [nearestInt_intCast] using nearestInt_mono hle

/-- Rounding keeps the order. Numbers with the same last place are rounded like integers, and
between others there is a power of two. -/
theorem nearest_mono {p q : ℚ} (hp : 0 ≤ p) (h : p ≤ q) : nearest p ≤ nearest q := by
  rcases hp.eq_or_lt with rfl | hpos
  · rw [nearest_zero]
    exact nearest_nonneg h
  rcases (lastPlace_mono hpos h).lt_or_eq with hlt | heq
  · have hplace := neg_1074_le_lastPlace p
    have hpower : Representable (2 ^ (lastPlace q + 52)) := Representable.two_zpow (by omega)
    have hbelow : p ≤ 2 ^ (lastPlace q + 52) :=
      (lt_two_zpow_lastPlace p).le.trans (two_zpow_le (by omega))
    have habove := two_zpow_lastPlace_le (hpos.trans_le h) (by omega)
    exact (hpower.nearest_le hp hbelow).trans (hpower.le_nearest (hp.trans h) habove)
  · unfold nearest
    rw [heq]
    have hdiv : p / 2 ^ lastPlace q ≤ q / 2 ^ lastPlace q :=
      div_le_div_of_nonneg_right h (two_zpow_pos _).le
    exact mul_le_mul_of_nonneg_right (by exact_mod_cast nearestInt_mono hdiv)
      (two_zpow_pos _).le

/-- A representable number is a whole number of its last places, of 53 digits at most. -/
theorem Representable.exists_eq_mul {y : ℚ} (hy : Representable y) :
    ∃ m : ℕ, m < 2 ^ 53 ∧ y = m * 2 ^ lastPlace y := by
  obtain ⟨m, -, hm⟩ := exists_nearestInt_eq hy.nonneg
  have hvalue : y = m * 2 ^ lastPlace y := by
    conv_lhs => rw [← hy.nearest_eq, nearest, hm]
    rw [Int.cast_natCast]
  refine ⟨m, ?_, hvalue⟩
  have hbound := lt_two_zpow_lastPlace y
  rw [add_comm, two_zpow_add] at hbound
  conv_lhs at hbound => rw [hvalue]
  exact_mod_cast lt_of_mul_lt_mul_right hbound (two_zpow_pos _).le

/-- From `2 ^ -1022` on the next representable number after one that is representable is no farther
away than its share by `2 ^ 52`. -/
theorem Representable.exists_step {y : ℚ} (hy : Representable y) (h : 2 ^ (-1022 : ℤ) ≤ y) :
    ∃ step, 0 < step ∧ step ≤ y / 2 ^ 52 ∧ Representable step ∧ Representable (y + step) := by
  have hpos : 0 < y := (two_zpow_pos _).trans_le h
  have hsplit : (2 : ℚ) ^ (lastPlace y + 52) = 2 ^ 52 * 2 ^ lastPlace y := by
    rw [add_comm, two_zpow_add]
    norm_num
  have hnormal : 2 ^ 52 * 2 ^ lastPlace y ≤ y := by
    rw [← hsplit]
    by_cases hplace : lastPlace y = -1074
    · rwa [hplace]
    · exact two_zpow_lastPlace_le hpos hplace
  obtain ⟨m, hlt, hvalue⟩ := hy.exists_eq_mul
  refine ⟨2 ^ lastPlace y, two_zpow_pos _, ?_, two_zpow (neg_1074_le_lastPlace y), ?_⟩
  · rw [le_div_iff₀ (by positivity)]
    linarith
  · have hnext : y + 2 ^ lastPlace y = ((m + 1 : ℕ) : ℚ) * 2 ^ lastPlace y := by
      rw [Nat.cast_add_one, add_one_mul, ← hvalue]
    rw [hnext]
    exact of_mul hlt (neg_1074_le_lastPlace y)

/-- What is no smaller than the least positive number is not rounded to zero. -/
theorem nearest_pos {q : ℚ} (h : 2 ^ (-1074 : ℤ) ≤ q) : 0 < nearest q :=
  (two_zpow_pos (-1074)).trans_le
    ((Representable.two_zpow le_rfl).le_nearest ((two_zpow_pos _).le.trans h) h)

end FlowControl.Binary64
