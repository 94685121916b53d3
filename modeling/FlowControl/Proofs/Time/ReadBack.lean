import FlowControl.Proofs.Decimal.ReadBack
import FlowControl.Proofs.Text.Trim
import FlowControl.Time.TimestampReader

/-!
# Time stamps are read back

A time stamp that is written is read as the same time stamp, whatever its year and its nanoseconds
are. Every number is padded to the width of its place, so the reader stops where it ends, except for
a year that has its sign.
-/

namespace FlowControl.Timestamp

open FlowControl.Numeral (IsDigits isDigit_of_mem_replicate_zero isDigits_toDigits ofDigits
  ofDigits_append ofDigits_replicate_zero ofDigits_toDigits)

variable {digits rest : List Char} {width most n : ℕ}

/-! ### Numbers of a width -/

/-- A padded number is made of digits, at least one. -/
theorem isDigits_padded (width n : ℕ) : IsDigits (padded width n) := by
  obtain ⟨hne, hdigits⟩ := isDigits_toDigits n
  exact ⟨by simp [padded, hne],
    List.forall_mem_append.mpr ⟨isDigit_of_mem_replicate_zero, hdigits⟩⟩

/-- The zeros before a padded number do not change it. -/
theorem ofDigits_padded (width n : ℕ) : ofDigits (padded width n) = n := by
  rw [padded, ofDigits_append, ofDigits_replicate_zero, ofDigits_toDigits, zero_mul, zero_add]

/-- A number that fits a width takes all of it when it is padded. -/
theorem length_padded (hwidth : 0 < width) (hn : n < 10 ^ width) :
    (padded width n).length = width := by
  have hle : (Nat.toDigits 10 n).length ≤ width :=
    (Nat.length_toDigits_le_iff (by norm_num) hwidth).mpr hn
  rw [padded, List.length_append, List.length_replicate]
  omega

/-- There is nothing to skip before a character that is no blank. -/
theorem skipBlanks_cons {c : Char} (hc : Text.isBlank c = false) (cs : List Char) :
    skipBlanks (c :: cs) = c :: cs := by
  simp [skipBlanks, hc]

/-- There is nothing to skip before digits. -/
theorem skipBlanks_digits_append (h : IsDigits digits) (rest : List Char) :
    skipBlanks (digits ++ rest) = digits ++ rest := by
  obtain ⟨c, cs, rfl⟩ := List.exists_cons_of_ne_nil h.ne_nil
  exact skipBlanks_cons (Text.isBlank_of_isDigit (h.isDigit c List.mem_cons_self)) _

/-- Digits are read up to their greatest number, or up to what is no digit. -/
theorem readDigits_append (h : IsDigits digits) (hle : digits.length ≤ most)
    (hend : digits.length = most ∨ ∀ c ∈ rest.head?, c.isDigit = false) :
    readDigits most (digits ++ rest) = .ok (digits, rest) := by
  have hspan : ((digits ++ rest).take most).takeWhile Char.isDigit = digits := by
    rw [List.take_append, List.take_of_length_le hle, List.takeWhile_append_of_pos h.isDigit]
    rcases hend with heq | hrest
    · rw [heq, Nat.sub_self, List.take_zero, List.takeWhile_nil, List.append_nil]
    · cases rest with
      | nil => simp
      | cons c cs =>
        have hc := hrest c rfl
        cases hk : most - digits.length with
        | zero => simp
        | succ k => simp [hc]
  rw [readDigits, hspan]
  simp [h.ne_nil]

/-- A month, day, hour, minute or second is read from its two digits, whatever follows. -/
theorem readField_padded {least greatest : ℕ} (hleast : least ≤ n) (hgreatest : n ≤ greatest)
    (hn : n < 100) (rest : List Char) :
    readField least greatest (padded 2 n ++ rest) = .ok (n, rest) := by
  have hdigits := isDigits_padded 2 n
  have hlength := length_padded two_pos (show n < 10 ^ 2 from hn)
  rw [readField, skipBlanks_digits_append hdigits,
    readDigits_append hdigits hlength.le (Or.inl hlength)]
  simp [bind, Except.bind, pure, Except.pure, require, ofDigits_padded, hleast, hgreatest]

/-! ### The date and the time of day -/

/-- A year after its sign has as many digits as it takes. -/
theorem readLongYear_append (negative : Bool) {year : ℤ} (hleast : -2147483648 ≤ year)
    (hmost : year ≤ 2147483647) (hyear : (if negative then -(n : ℤ) else n) = year)
    (hrest : ∀ c ∈ rest.head?, c.isDigit = false) :
    readLongYear negative (padded 4 n ++ rest) = .ok (year, rest) := by
  have hread : readDigits (padded 4 n ++ rest).length (padded 4 n ++ rest) =
      .ok (padded 4 n, rest) :=
    readDigits_append (isDigits_padded 4 n) (by simp) (Or.inr hrest)
  rw [readLongYear, hread]
  simp [bind, Except.bind, pure, Except.pure, require, ofDigits_padded, hyear, hleast, hmost]

/-- A year is read with its sign and all its digits, if no further digit follows. -/
theorem readYear_yearChars {year : ℤ} (hleast : -2147483648 ≤ year) (hmost : year ≤ 2147483647)
    (hrest : ∀ c ∈ rest.head?, c.isDigit = false) :
    readYear (yearChars year ++ rest) = .ok (year, rest) := by
  unfold yearChars
  split_ifs with hshort hnegative
  · have hdigits := isDigits_padded 4 year.natAbs
    have hlength := length_padded four_pos (show year.natAbs < 10 ^ 4 by omega)
    have hhead : ∀ c ∈ (padded 4 year.natAbs ++ rest).head?, c.isDigit = true := by
      rw [List.head?_append_of_ne_nil _ hdigits.ne_nil]
      exact fun c hc => hdigits.isDigit c (List.mem_of_head? hc)
    rw [readYear, skipBlanks_digits_append hdigits]
    split
    · next heq => exact absurd (hhead '-' (by rw [heq]; rfl)) (by decide)
    · next heq => exact absurd (hhead '+' (by rw [heq]; rfl)) (by decide)
    · rw [readDigits_append hdigits hlength.le (Or.inl hlength)]
      simp [Except.map, ofDigits_padded, Int.natAbs_of_nonneg hshort.1]
  · exact readLongYear_append true hleast hmost (by rw [if_pos rfl]; omega) hrest
  · exact readLongYear_append false hleast hmost
      (by rw [if_neg Bool.false_ne_true]; omega) hrest

/-- The digits after a point stand for nanoseconds, in whatever unit they are. -/
theorem readFraction_padded {nanos : ℕ} (hwidth : 0 < width) (hle : width ≤ 9)
    (hn : n < 10 ^ width) (hnanos : n * 10 ^ (9 - width) = nanos)
    (hrest : ∀ c ∈ rest.head?, c.isDigit = false) :
    readFraction ('.' :: padded width n ++ rest) = .ok (nanos, rest) := by
  have hdrop : rest.dropWhile Char.isDigit = rest := by
    cases rest with
    | nil => rfl
    | cons c cs => simp [hrest c rfl]
  have hlength := length_padded hwidth hn
  rw [List.cons_append, readFraction,
    readDigits_append (isDigits_padded width n) (hlength.trans_le hle) (Or.inr hrest)]
  simp [bind, Except.bind, pure, Except.pure, ofDigits_padded, hlength, hdrop, hnanos]

/-- The nanoseconds past a second are read from their digits after the point, if there are any. -/
theorem readFraction_fractionChars {nanos : ℕ} (h : nanos < nanosPerSecond)
    (hrest : ∀ c ∈ rest.head?, c.isDigit = false ∧ c ≠ '.') :
    readFraction (fractionChars nanos ++ rest) = .ok (nanos, rest) := by
  have hdigit : ∀ c ∈ rest.head?, c.isDigit = false := fun c hc => (hrest c hc).1
  rw [nanosPerSecond] at h
  unfold fractionChars
  split_ifs with hzero hmillis hmicros
  · subst hzero
    rw [List.nil_append]
    unfold readFraction
    split
    · exact absurd rfl (hrest '.' rfl).2
    · rfl
  · exact readFraction_padded (by norm_num) (by norm_num) (by omega)
      (Nat.div_mul_cancel (Nat.dvd_of_mod_eq_zero hmillis)) hdigit
  · exact readFraction_padded (by norm_num) (by norm_num) (by omega)
      (Nat.div_mul_cancel (Nat.dvd_of_mod_eq_zero hmicros)) hdigit
  · exact readFraction_padded (by norm_num) (by norm_num) (by omega) (mul_one nanos) hdigit

/-- A mark between two numbers is read where it stands. -/
theorem readMark_cons {mark : Char} (h : Text.isBlank mark = false) (rest : List Char) :
    readMark mark (mark :: rest) = .ok rest := by
  rw [readMark, skipBlanks_cons h]
  exact if_pos rfl

/-- A date is read from its year, month and day with dashes between them, whatever follows. -/
theorem readDate_append (date : Date) (rest : List Char) :
    readDate (yearChars date.year ++ '-' :: (padded 2 date.month ++ '-' ::
      (padded 2 date.day ++ rest))) = .ok ((date.year, date.month, date.day), rest) := by
  obtain ⟨year, month, day, ⟨hleast, hmost⟩, hmonth, hday⟩ := date
  have hlast : daysInMonth year month ≤ 31 := by
    unfold daysInMonth
    split_ifs <;> norm_num
  rw [earliestYear] at hleast
  rw [latestYear] at hmost
  dsimp only
  rw [readDate, readYear_yearChars (by omega) (by omega) (by simp)]
  dsimp only [bind, Except.bind]
  rw [readMark_cons (by decide)]
  dsimp only
  rw [readField_padded hmonth.1 hmonth.2 (by omega)]
  dsimp only
  rw [readMark_cons (by decide)]
  dsimp only
  rw [readField_padded hday.1 (hday.2.trans hlast) (by omega)]
  rfl

/-- The time of a day is read from its hour, minute and second with colons between them and the
fraction of the second. -/
theorem readTime_append (t : Timestamp) (hrest : ∀ c ∈ rest.head?, c.isDigit = false ∧ c ≠ '.') :
    readTime (padded 2 t.hour ++ ':' :: (padded 2 t.minuteOfHour ++ ':' ::
      (padded 2 t.second ++ (fractionChars t.subsecNanos ++ rest)))) =
      .ok ((t.minute, t.nanos), rest) := by
  have hhour : t.hour ≤ 23 := by
    have := t.minute_lt
    rw [minutesPerDay] at this
    rw [hour]
    omega
  have hminute : t.minuteOfHour ≤ 59 := Nat.lt_succ_iff.mp (Nat.mod_lt _ (by norm_num))
  have hsecond : t.second ≤ 60 := Nat.lt_succ_iff.mp (Nat.div_lt_of_lt_mul (by
    rw [mul_comm]
    exact t.nanos_lt))
  have hnanos : t.subsecNanos < nanosPerSecond := Nat.mod_lt _ (by norm_num [nanosPerSecond])
  rw [readTime, readField_padded (Nat.zero_le _) hhour (by omega)]
  dsimp only [bind, Except.bind]
  rw [readMark_cons (by decide)]
  dsimp only
  rw [readField_padded (Nat.zero_le _) hminute (by omega)]
  dsimp only
  rw [readMark_cons (by decide)]
  dsimp only
  rw [readField_padded (Nat.zero_le _) hsecond (by omega)]
  dsimp only
  rw [readFraction_fractionChars hnanos hrest]
  dsimp only [pure, Except.pure]
  rw [hour, minuteOfHour, second, subsecNanos, Nat.div_add_mod, Nat.div_add_mod]

/-- **A time stamp that is written is read as itself.** -/
theorem parse_render (t : Timestamp) : parse t.render = .ok t := by
  have hchars : t.chars = yearChars t.date.year ++ '-' :: (padded 2 t.date.month ++ '-' ::
      (padded 2 t.date.day ++ 'T' :: (padded 2 t.hour ++ ':' :: (padded 2 t.minuteOfHour ++ ':' ::
        (padded 2 t.second ++ (fractionChars t.subsecNanos ++ ['Z'])))))) := by
    simp [chars]
  have hdate : Date.ofParts? t.date.year t.date.month t.date.day = some t.date := by
    rw [Date.ofParts?, dif_pos t.date.year_mem, dif_pos t.date.month_mem, dif_pos t.date.day_mem]
  have hclock : ofClock? t.date t.minute t.nanos 0 = some t := by
    have hminute := t.minute_lt
    have hday : ((t.minute : ℤ) - 0) % minutesPerDay = t.minute := by
      rw [sub_zero]
      exact Int.emod_eq_of_lt (by omega) (by omega)
    rw [ofClock?]
    dsimp only
    rw [if_neg (by omega), if_neg (by omega), hday]
    simp [ofParts?, t.minute_lt, t.nanos_lt]
  rw [parse, render, String.toList_ofList, hchars, ofChars, readDate_append t.date]
  dsimp only [bind, Except.bind]
  rw [readSeparator, if_pos (Or.inl rfl)]
  dsimp only
  rw [readTime_append t (by simp)]
  dsimp only
  rw [show readOffset (skipBlanks ['Z']) = .ok (0, []) by rfl]
  dsimp only
  rw [if_neg (by decide), hdate]
  dsimp only
  rw [if_neg (by decide), hclock]
  rfl

end FlowControl.Timestamp
