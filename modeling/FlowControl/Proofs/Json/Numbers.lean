import FlowControl.Proofs.Decimal.ReadBack
import FlowControl.Proofs.Json.Finite

/-!
# Numbers are taken apart as they are written

A number that is written and read is taken apart into the digits before the point, those after it
and the exponent. If all digits fit a word then they are its significand, so the number is scaled
from the decimal that stands in the text. This decimal is as large as the one that was written, but
it may not be the same: a whole number carries zeros and a zero after the point.
-/

namespace FlowControl.Json

open FlowControl.Numeral (IsDigits decimal? exponent? isDigit_of_mem_replicate_zero
  isDigits_toDigits ofDigits ofDigits_append ofDigits_replicate_zero ofDigits_toDigits spanDigits
  spanDigits_append spanFraction splitSign)

/-- What follows a value in a list or record: a comma, a bracket that closes, or nothing. -/
def IsEnd (rest : List Char) : Prop := ∀ c ∈ rest.head?, c = ',' ∨ c = ']' ∨ c = '\x7d'

/-- What follows a value in a list or record is no digit. -/
theorem IsEnd.not_isDigit {rest : List Char} (h : IsEnd rest) :
    ∀ c ∈ rest.head?, c.isDigit = false := by
  intro c hc
  rcases h c hc with rfl | rfl | rfl <;> rfl

/-- A value may be the last thing in a text. -/
theorem IsEnd.nil : IsEnd [] := fun _ hc => absurd hc (Option.not_mem_none _)

/-- The digits of a positive number do not start with a zero. -/
theorem head?_toDigits_ne {n : ℕ} (hn : 0 < n) : (Nat.toDigits 10 n).head? ≠ some '0' := by
  induction n using Nat.strong_induction_on with
  | _ n ih =>
    rcases Nat.lt_or_ge n 10 with hlt | hge
    · rw [Nat.toDigits_of_lt_base hlt]
      have hall : ∀ i : Fin 10, 0 < i.val → [Nat.digitChar i].head? ≠ some '0' := by decide
      exact hall ⟨n, hlt⟩ hn
    · rw [Nat.toDigits_of_base_le (by norm_num) hge,
        List.head?_append_of_ne_nil _ Nat.toDigits_ne_nil]
      exact ih (n / 10) (by omega) (by omega)

namespace Numeral

variable {numeral : Numeral} {digits rest : List Char} {d : Decimal}

/-! ### The text of a numeral -/

/-- The point and the digits after it. -/
def fractionChars : Option (List Char) → List Char
  | none => []
  | some digits => '.' :: digits

/-- An exponent with its sign. -/
def exponentChars : Option (Bool × List Char) → List Char
  | none => []
  | some (negative, digits) => 'e' :: (if negative then '-' else '+') :: digits

/-- The text of a numeral after its sign. -/
def chars (numeral : Numeral) : List Char :=
  numeral.whole ++ (fractionChars numeral.fraction ++ exponentChars numeral.exponent)

/-- What the grammar demands of the parts of a numeral. -/
structure WellFormed (numeral : Numeral) : Prop where
  whole : IsDigits numeral.whole
  no_zero : 1 < numeral.whole.length → numeral.whole.head? ≠ some '0'
  fraction : ∀ digits ∈ numeral.fraction, IsDigits digits
  exponent : ∀ written ∈ numeral.exponent, IsDigits written.2

/-- Neither a digit nor a point starts what follows the digits of a numeral. -/
theorem not_isDigit_exponentChars (exponent : Option (Bool × List Char)) (h : IsEnd rest) :
    ∀ c ∈ (exponentChars exponent ++ rest).head?, c.isDigit = false ∧ c ≠ '.' := by
  cases exponent with
  | none =>
    intro c hc
    rcases h c hc with rfl | rfl | rfl <;> exact ⟨rfl, by decide⟩
  | some written =>
    intro c hc
    obtain rfl : 'e' = c := by simpa [exponentChars] using hc
    exact ⟨rfl, by decide⟩

/-- What follows the digits before the point is no digit: a point, an exponent, or what ends the
number. -/
theorem not_isDigit_fractionChars (fraction : Option (List Char))
    (exponent : Option (Bool × List Char)) (h : IsEnd rest) :
    ∀ c ∈ (fractionChars fraction ++ (exponentChars exponent ++ rest)).head?,
      c.isDigit = false := by
  cases fraction with
  | none => exact fun c hc => (not_isDigit_exponentChars exponent h c hc).1
  | some digits =>
    intro c hc
    obtain rfl : '.' = c := by simpa [fractionChars] using hc
    rfl

/-- The digits before the point are read in full, unless there are several and the first of them is
a zero. -/
theorem scanWhole_append (hdigits : IsDigits digits)
    (hzero : 1 < digits.length → digits.head? ≠ some '0')
    (hrest : ∀ c ∈ rest.head?, c.isDigit = false) :
    scanWhole (digits ++ rest) = .ok (digits, rest) := by
  rw [scanWhole, spanDigits_append hdigits.isDigit hrest]
  match digits, hdigits.ne_nil with
  | [c], _ => simp
  | c :: c' :: cs, _ =>
    have hc : c ≠ '0' := fun h => hzero (by simp) (by rw [h, List.head?_cons])
    simp [hc]

/-- The digits after the point are read in full, and none are read if there is no point. -/
theorem scanFraction_append {fraction : Option (List Char)}
    (hdigits : ∀ digits ∈ fraction, IsDigits digits)
    (hrest : ∀ c ∈ rest.head?, c.isDigit = false ∧ c ≠ '.') :
    scanFraction (fractionChars fraction ++ rest) = .ok (fraction, rest) := by
  cases fraction with
  | none =>
    rw [fractionChars, List.nil_append]
    unfold scanFraction
    split
    · exact absurd rfl (hrest '.' rfl).2
    · rfl
  | some digits =>
    obtain ⟨hne, hall⟩ := hdigits digits rfl
    have hempty : digits.isEmpty = false := by simpa using hne
    rw [fractionChars, List.cons_append, scanFraction,
      spanDigits_append hall fun c hc => (hrest c hc).1]
    simp [hempty]

/-- The sign of a written exponent is split off. -/
theorem splitSign_sign (negative : Bool) (cs : List Char) :
    splitSign ((if negative then '-' else '+') :: cs) = (negative, cs) := by
  cases negative <;> rfl

/-- The exponent is read with its sign and in full, and none is read if there is none. -/
theorem scanExponent_append {exponent : Option (Bool × List Char)}
    (hdigits : ∀ written ∈ exponent, IsDigits written.2) (hrest : IsEnd rest) :
    scanExponent (exponentChars exponent ++ rest) = .ok (exponent, rest) := by
  cases exponent with
  | none =>
    rw [exponentChars, List.nil_append]
    cases rest with
    | nil => rfl
    | cons c cs =>
      have hc : ¬ (c = 'e' ∨ c = 'E') := by
        rcases hrest c rfl with rfl | rfl | rfl <;> decide
      rw [scanExponent, if_neg hc]
  | some written =>
    obtain ⟨negative, digits⟩ := written
    obtain ⟨hne, hall⟩ := hdigits _ rfl
    have hempty : digits.isEmpty = false := by simpa using hne
    rw [exponentChars, List.cons_append, scanExponent, if_pos (Or.inl rfl), List.cons_append,
      splitSign_sign]
    dsimp only
    rw [spanDigits_append hall hrest.not_isDigit]
    simp [hempty]

/-- **The text of a numeral is taken apart into its parts.** -/
theorem scan_append (h : numeral.WellFormed) (hrest : IsEnd rest) :
    scan numeral.negative (numeral.chars ++ rest) = .ok (numeral, rest) := by
  rw [scan, chars, List.append_assoc, List.append_assoc, scanWhole_append h.whole h.no_zero
    (not_isDigit_fractionChars _ _ hrest)]
  dsimp only [bind, Except.bind]
  rw [scanFraction_append h.fraction (not_isDigit_exponentChars _ hrest)]
  dsimp only
  rw [scanExponent_append h.exponent hrest]
  rfl

/-! ### The number of a numeral -/

/-- Digits that fit a word are all taken. -/
theorem appendDigits_eq {word : ℕ} (h : Nat.ofDigitChars 10 digits word < wordCount) :
    appendDigits word digits = (Nat.ofDigitChars 10 digits word, []) := by
  induction digits generalizing word with
  | nil => rfl
  | cons c cs ih =>
    rw [Nat.ofDigitChars_cons] at h ⊢
    have hnext : 10 * word + (c.toNat - '0'.toNat) < wordCount := by
      refine lt_of_le_of_lt ?_ h
      rw [Nat.ofDigitChars_eq_ofDigitChars_zero]
      exact le_add_right (Nat.le_mul_of_pos_left _ (by positivity))
    rw [appendDigits, if_pos hnext, ih h]

/-- The exponent that is written. -/
def writtenExponent : Option (Bool × List Char) → ℤ
  | none => 0
  | some (negative, digits) => if negative then -(ofDigits digits : ℤ) else ofDigits digits

/-- The decimal that is written. -/
def decimal (numeral : Numeral) : Decimal where
  coefficient := ofDigits (numeral.whole ++ numeral.fraction.getD [])
  exponent := writtenExponent numeral.exponent - (numeral.fraction.getD []).length

/-- A numeral that is well formed is read as its decimal. -/
theorem decimal?_chars (h : numeral.WellFormed) :
    decimal? numeral.chars = some numeral.decimal := by
  obtain ⟨negative, whole, fraction, exponent⟩ := numeral
  obtain ⟨⟨hne, hwhole⟩, -, hfraction, hexponent⟩ := h
  dsimp only at hne hwhole hfraction hexponent
  have hempty : whole.isEmpty = false := by simpa using hne
  have hafter := not_isDigit_exponentChars exponent .nil
  rw [List.append_nil] at hafter
  have hexp : exponent? (exponentChars exponent) = some (writtenExponent exponent) := by
    cases exponent with
    | none => rfl
    | some written =>
      obtain ⟨negative, digits⟩ := written
      obtain ⟨hne, hall⟩ := hexponent _ rfl
      have hempty : digits.isEmpty = false := by simpa using hne
      have hspan : spanDigits digits = (digits, []) := by
        conv_lhs => rw [← List.append_nil digits]
        exact spanDigits_append hall (by simp)
      rw [exponentChars, exponent?, if_pos (Or.inl rfl), splitSign_sign]
      dsimp only
      rw [hspan, writtenExponent]
      cases negative <;> simp [hempty]
  have hfrac : spanFraction (fractionChars fraction ++ exponentChars exponent) =
      (fraction.getD [], exponentChars exponent) := by
    cases fraction with
    | none =>
      rw [fractionChars, List.nil_append]
      unfold spanFraction
      split
      · next cs hcs => exact absurd rfl (hafter '.' (by rw [hcs]; rfl)).2
      · rfl
    | some digits =>
      exact spanDigits_append (hfraction digits rfl).isDigit fun c hc => (hafter c hc).1
  have hstart := not_isDigit_fractionChars fraction exponent .nil
  rw [List.append_nil] at hstart
  rw [decimal?, chars, spanDigits_append hwhole hstart]
  simp [hfrac, hempty, hexp, decimal]

/-- A numeral with a point or an exponent is scaled from the decimal that is written, if its digits
fit a word. -/
theorem value_eq_real (hword : numeral.decimal.coefficient < wordCount)
    (hreal : numeral.fraction.isSome ∨ numeral.exponent.isSome)
    (hexponent : ∀ written ∈ numeral.exponent, ofDigits written.2 ≤ greatestExponent) :
    numeral.value =
      (scale 3 numeral.decimal.coefficient.toUInt64.toFloat numeral.decimal.exponent).map
        fun x => .real (signed numeral.negative x) := by
  obtain ⟨negative, whole, fraction, exponent⟩ := numeral
  dsimp only at hreal hexponent ⊢
  have hall : Nat.ofDigitChars 10 (fraction.getD []) (ofDigits whole) =
      ofDigits (whole ++ fraction.getD []) := (Nat.ofDigitChars_append ..).symm
  have htaken : appendDigits (ofDigits whole) (fraction.getD []) =
      (ofDigits (whole ++ fraction.getD []), []) := by
    rw [appendDigits_eq (by rwa [hall]), hall]
  have hwhole : appendDigits 0 whole = (ofDigits whole, []) := by
    refine appendDigits_eq (lt_of_le_of_lt ?_ hword)
    rw [decimal, ofDigits_append]
    exact le_add_right (Nat.le_mul_of_pos_right _ (by positivity))
  have hnotWhole : (fraction.isNone && exponent.isNone) = false := by
    rcases hreal with h | h <;> simp [Option.isNone_eq_false_iff.mpr h]
  have hcompose (x : Except TextFault Float) :
      (x.map (signed negative)).map Number.real = x.map fun x => .real (signed negative x) := by
    cases x <;> rfl
  rw [value, hwhole]
  simp only [List.isEmpty_nil, Bool.true_and, hnotWhole, Bool.false_eq_true, if_false, htaken,
    List.length_nil, Nat.sub_zero, Nat.cast_zero, zero_sub, decimal]
  cases exponent with
  | none => rw [real, writtenExponent, zero_sub, hcompose]
  | some written =>
    obtain ⟨negativeExponent, digits⟩ := written
    have hsmall : ¬ greatestExponent < ofDigits digits := not_lt.mpr (hexponent _ rfl)
    rw [real]
    dsimp only
    rw [if_neg hsmall, writtenExponent, hcompose]
    cases negativeExponent
    · simp only [Bool.false_eq_true, if_false, neg_add_eq_sub]
    · rw [if_pos rfl, if_pos rfl, neg_sub_comm]

/-- Digits alone are a word if they fit one. -/
theorem value_eq_word {whole : List Char} (hword : ofDigits whole < wordCount) :
    value ⟨false, whole, none, none⟩ = .ok (.word (ofDigits whole).toUInt64) := by
  have htaken : appendDigits 0 whole = (ofDigits whole, []) := appendDigits_eq hword
  simp [value, htaken, wholeNumber]

/-! ### The numeral of a decimal -/

/-- A numeral that is written for a decimal. It stands for the decimal itself, or for a number of
tenths if the decimal is whole and is written without an exponent. -/
structure Writes (numeral : Numeral) (d : Decimal) : Prop where
  wellFormed : numeral.WellFormed
  chars_eq : numeral.chars = NumberStyle.json.decimalChars d
  isReal : numeral.fraction.isSome ∨ numeral.exponent.isSome
  exponent_le : ∀ written ∈ numeral.exponent, ofDigits written.2 ≤ greatestExponent
  coefficient_lt : numeral.decimal.coefficient < wordCount
  decimal_eq : numeral.decimal = d ∨ numeral.decimal.exponent = -1

/-- The digits after the point are all that a numeral without an exponent adds. -/
theorem Writes.of_fraction (negative : Bool) {whole fraction : List Char} (hwhole : IsDigits whole)
    (hzero : 1 < whole.length → whole.head? ≠ some '0') (hfraction : IsDigits fraction)
    (hchars : NumberStyle.json.decimalChars d = whole ++ '.' :: fraction)
    (hlt : ofDigits (whole ++ fraction) < wordCount)
    (heq : (⟨ofDigits (whole ++ fraction), -fraction.length⟩ : Decimal) = d ∨ fraction.length = 1) :
    Writes ⟨negative, whole, some fraction, none⟩ d where
  wellFormed := ⟨hwhole, hzero, by simpa using hfraction, by simp⟩
  chars_eq := by simp [hchars, chars, fractionChars, exponentChars]
  isReal := Or.inl rfl
  exponent_le := by simp
  coefficient_lt := hlt
  decimal_eq := by
    rcases heq with heq | hone
    · left
      rw [← heq, decimal, writtenExponent, zero_sub]
      rfl
    · right
      rw [decimal, Option.getD_some, hone]
      rfl

/-- A whole number in positional notation. -/
theorem exists_writes_whole (negative : Bool) {k : ℕ} (hzero : d.coefficient = 0 → k = 0)
    (hmost : (Nat.toDigits 10 d.coefficient).length + k ≤ 16)
    (hchars : NumberStyle.json.decimalChars d =
      Nat.toDigits 10 d.coefficient ++ List.replicate k '0' ++ ['.', '0']) :
    ∃ numeral : Numeral, numeral.negative = negative ∧ numeral.Writes d := by
  obtain ⟨hne, hdigits⟩ := isDigits_toDigits d.coefficient
  have hbound : d.coefficient < 10 ^ (Nat.toDigits 10 d.coefficient).length :=
    (Nat.length_toDigits_le_iff (by norm_num) Nat.length_toDigits_pos).mp le_rfl
  have hvalue : ofDigits (Nat.toDigits 10 d.coefficient ++ List.replicate k '0' ++ ['0']) =
      d.coefficient * 10 ^ k * 10 := by
    rw [ofDigits_append, ofDigits_append, ofDigits_replicate_zero, ofDigits_toDigits,
      List.length_replicate]
    rfl
  refine ⟨_, rfl, .of_fraction negative
    ⟨by simp [hne], List.forall_mem_append.mpr ⟨hdigits, isDigit_of_mem_replicate_zero⟩⟩
    (fun hlong => ?_) (isDigits_toDigits 0) hchars ?_ (Or.inr rfl)⟩
  · rw [List.head?_append_of_ne_nil _ hne]
    refine head?_toDigits_ne (Nat.pos_of_ne_zero fun hc => ?_)
    rw [hc, hzero hc] at hlong
    simp at hlong
  · calc ofDigits (Nat.toDigits 10 d.coefficient ++ List.replicate k '0' ++ ['0'])
        = d.coefficient * 10 ^ k * 10 := hvalue
      _ ≤ 10 ^ (Nat.toDigits 10 d.coefficient).length * 10 ^ k * 10 := by gcongr
      _ = 10 ^ ((Nat.toDigits 10 d.coefficient).length + k + 1) := by ring
      _ ≤ 10 ^ 17 := Nat.pow_le_pow_right (by norm_num) (by omega)
      _ < wordCount := by norm_num [wordCount]

/-- A number whose point is among its digits. -/
theorem exists_writes_inside (negative : Bool) (hlt : d.coefficient < wordCount) {k : ℕ}
    (hpos : 0 < k) (hk : d.exponent = k - (Nat.toDigits 10 d.coefficient).length)
    (hinside : k < (Nat.toDigits 10 d.coefficient).length)
    (hchars : NumberStyle.json.decimalChars d =
      (Nat.toDigits 10 d.coefficient).take k ++ '.' :: (Nat.toDigits 10 d.coefficient).drop k) :
    ∃ numeral : Numeral, numeral.negative = negative ∧ numeral.Writes d := by
  obtain ⟨hne, hdigits⟩ := isDigits_toDigits d.coefficient
  have hvalue : ofDigits ((Nat.toDigits 10 d.coefficient).take k ++
      (Nat.toDigits 10 d.coefficient).drop k) = d.coefficient := by
    rw [List.take_append_drop, ofDigits_toDigits]
  have htake : (Nat.toDigits 10 d.coefficient).take k ≠ [] := by
    rw [ne_eq, List.take_eq_nil_iff]
    exact not_or.mpr ⟨by omega, hne⟩
  have hhead : ((Nat.toDigits 10 d.coefficient).take k).head? ≠ some '0' := by
    rw [← List.head?_append_of_ne_nil _ htake, List.take_append_drop]
    refine head?_toDigits_ne (Nat.pos_of_ne_zero fun hc => ?_)
    rw [hc, Nat.toDigits_zero, List.length_singleton] at hinside
    omega
  refine ⟨_, rfl, .of_fraction negative
    ⟨htake, fun c hc => hdigits c (List.mem_of_mem_take hc)⟩ (fun _ => hhead)
    ⟨by simp [hinside], fun c hc => hdigits c (List.mem_of_mem_drop hc)⟩ hchars
    (hvalue.trans_lt hlt) (Or.inl ?_)⟩
  rw [hvalue, List.length_drop, Nat.cast_sub hinside.le, neg_sub, ← hk]

/-- A number whose point is before its digits. -/
theorem exists_writes_before (negative : Bool) (hlt : d.coefficient < wordCount) {k : ℕ}
    (hk : d.exponent = -k - (Nat.toDigits 10 d.coefficient).length)
    (hchars : NumberStyle.json.decimalChars d =
      '0' :: '.' :: (List.replicate k '0' ++ Nat.toDigits 10 d.coefficient)) :
    ∃ numeral : Numeral, numeral.negative = negative ∧ numeral.Writes d := by
  obtain ⟨hne, hdigits⟩ := isDigits_toDigits d.coefficient
  have hvalue : ofDigits (['0'] ++ (List.replicate k '0' ++ Nat.toDigits 10 d.coefficient)) =
      d.coefficient := by
    rw [← List.append_assoc, ofDigits_append, ofDigits_toDigits]
    exact Nat.add_eq_right.mpr (mul_eq_zero_of_left (ofDigits_replicate_zero (k + 1)) _)
  refine ⟨_, rfl, .of_fraction negative (isDigits_toDigits 0) (by simp)
    ⟨by simp [hne], List.forall_mem_append.mpr ⟨isDigit_of_mem_replicate_zero, hdigits⟩⟩ hchars
    (hvalue.trans_lt hlt) (Or.inl ?_)⟩
  rw [Decimal.mk.injEq, List.length_append, List.length_replicate]
  exact ⟨hvalue, by omega⟩

/-- A number with an exponent. -/
theorem exists_writes_scientific (negative : Bool) (hlt : d.coefficient < wordCount) {e : ℤ}
    (he : e = d.exponent + (Nat.toDigits 10 d.coefficient).length - 1)
    (hsmall : e.natAbs ≤ greatestExponent)
    (hchars : NumberStyle.json.decimalChars d =
      NumberStyle.scientificChars (Nat.toDigits 10 d.coefficient) e) :
    ∃ numeral : Numeral, numeral.negative = negative ∧ numeral.Writes d := by
  obtain ⟨hne, hdigits⟩ := isDigits_toDigits d.coefficient
  have hvalue := ofDigits_toDigits d.coefficient
  generalize Nat.toDigits 10 d.coefficient = digits at *
  let written : Option (Bool × List Char) := some (decide (e < 0), Nat.toDigits 10 e.natAbs)
  have hexponent : writtenExponent written = e := by
    simp only [written, writtenExponent, ofDigits_toDigits, decide_eq_true_eq]
    split_ifs <;> omega
  have hwritten : NumberStyle.exponentChars e = exponentChars written := by
    simp [written, NumberStyle.exponentChars, exponentChars]
  have hscan : ∀ w ∈ written, IsDigits w.2 ∧ ofDigits w.2 ≤ greatestExponent := by
    simpa [written, ofDigits_toDigits] using ⟨isDigits_toDigits e.natAbs, hsmall⟩
  obtain ⟨first, more, rfl⟩ := List.exists_cons_of_ne_nil hne
  cases more with
  | nil =>
    have hdecimal : decimal ⟨negative, [first], none, written⟩ = d := by
      rw [decimal, Decimal.mk.injEq]
      dsimp only
      rw [hexponent, he, Option.getD_none, List.append_nil, hvalue]
      simp
    refine ⟨_, rfl, ⟨⟨⟨by simp, hdigits⟩, by simp, by simp, fun w hw => (hscan w hw).1⟩, ?_,
      Or.inr rfl, fun w hw => (hscan w hw).2, hdecimal ▸ hlt, Or.inl hdecimal⟩⟩
    simp [hchars, NumberStyle.scientificChars, hwritten, chars, fractionChars]
  | cons second more =>
    have hsplit := List.forall_mem_cons.mp hdigits
    have hdecimal : decimal ⟨negative, [first], some (second :: more), written⟩ = d := by
      rw [decimal, Decimal.mk.injEq]
      dsimp only
      rw [hexponent, he, Option.getD_some, List.singleton_append, hvalue, List.length_cons]
      exact ⟨rfl, by omega⟩
    have hfirst : IsDigits [first] := ⟨by simp, by simpa using hsplit.1⟩
    have hmore : IsDigits (second :: more) := ⟨by simp, hsplit.2⟩
    refine ⟨_, rfl, ⟨⟨hfirst, by simp, by simpa using hmore, fun w hw => (hscan w hw).1⟩, ?_,
      Or.inr rfl, fun w hw => (hscan w hw).2, hdecimal ▸ hlt, Or.inl hdecimal⟩⟩
    simp [hchars, NumberStyle.scientificChars, hwritten, chars, fractionChars]

/-- **A decimal is written as a numeral.** -/
theorem exists_writes (negative : Bool) (hlt : d.coefficient < wordCount)
    (hleast : -324 ≤ d.exponent) (hmost : d.exponent ≤ 308)
    (hzero : d.coefficient = 0 → d.exponent = 0) :
    ∃ numeral : Numeral, numeral.negative = negative ∧ numeral.Writes d := by
  have hlength : 0 < (Nat.toDigits 10 d.coefficient).length := Nat.length_toDigits_pos
  have hshort : (Nat.toDigits 10 d.coefficient).length ≤ 20 :=
    (Nat.length_toDigits_le_iff (by norm_num) (by norm_num)).mpr
      (hlt.trans (by norm_num [wordCount]))
  obtain ⟨leading, hleading⟩ :
      ∃ e, e = d.exponent + (Nat.toDigits 10 d.coefficient).length - 1 := ⟨_, rfl⟩
  by_cases hpositional : NumberStyle.json.positional leading = true
  · have hchars : NumberStyle.json.decimalChars d =
        NumberStyle.json.positionalChars (Nat.toDigits 10 d.coefficient) (leading + 1) := by
      rw [NumberStyle.decimalChars, ← hleading]
      exact if_pos hpositional
    have hfew : leading ≤ 15 := by
      simp only [NumberStyle.json, Bool.and_eq_true, decide_eq_true_eq] at hpositional
      exact hpositional.2
    unfold NumberStyle.positionalChars at hchars
    split_ifs at hchars with hwhole hinside
    · refine exists_writes_whole negative (k := (leading + 1 - _).toNat) (fun hc => ?_) ?_ hchars
      · have := hzero hc
        omega
      · omega
    · exact exists_writes_inside negative hlt (k := (leading + 1).toNat) (by omega) (by omega)
        (by omega) hchars
    · exact exists_writes_before negative hlt (k := (-(leading + 1)).toNat) (by omega) hchars
  · refine exists_writes_scientific negative hlt hleading (by rw [greatestExponent]; omega) ?_
    rw [NumberStyle.decimalChars, ← hleading]
    exact if_neg hpositional

end Numeral

namespace Head

open Json.Numeral (decimal?_chars exists_writes scale scan_append signed value_eq_real
  value_eq_word)

variable {d : Decimal} {digits rest : List Char}

/-- A digit starts a number. -/
theorem read_digits_append (h : IsDigits digits) (rest : List Char) :
    Head.read (digits ++ rest) =
      (Number.read false (digits ++ rest)).map fun (value, after) => (.number value, after) := by
  obtain ⟨c, cs, rfl⟩ := List.exists_cons_of_ne_nil h.ne_nil
  have hdigit := h.isDigit c List.mem_cons_self
  have hne : ∀ c' : Char, c'.isDigit = false → c ≠ c' := fun c' h' heq => by
    rw [heq, h'] at hdigit
    exact Bool.false_ne_true hdigit
  have hblank : isBlank c = false := by
    simp [isBlank, hne ' ' rfl, hne '\n' rfl, hne '\t' rfl, hne '\r' rfl]
  have htight : skipBlanks (c :: (cs ++ rest)) = c :: (cs ++ rest) := by simp [skipBlanks, hblank]
  rw [List.cons_append, Head.read, htight, readTight]
  simp only [hne 'n' rfl, hne 't' rfl, hne 'f' rfl, hne '"' rfl, hne '[' rfl, hne '\x7b' rfl,
    hne '-' rfl, hdigit, if_false, if_true]

/-- A numeral is read after its sign. -/
theorem read_numeral {numeral : Numeral} {number : Number} (h : numeral.WellFormed)
    (hrest : IsEnd rest) (hvalue : numeral.value = .ok number) :
    Head.read (NumberStyle.signChars numeral.negative ++ numeral.chars ++ rest) =
      .ok (.number number, rest) := by
  have hread : Number.read numeral.negative (numeral.chars ++ rest) = .ok (number, rest) := by
    rw [Number.read, scan_append h hrest]
    dsimp only [bind, Except.bind]
    rw [hvalue]
    rfl
  have hsplit : numeral.chars ++ rest = numeral.whole ++
      (Numeral.fractionChars numeral.fraction ++ Numeral.exponentChars numeral.exponent ++ rest) :=
    List.append_assoc ..
  rw [List.append_assoc]
  cases hnegative : numeral.negative with
  | true =>
    rw [hnegative] at hread
    exact congrArg (Except.map fun (value, after) => (Head.number value, after)) hread
  | false =>
    rw [hnegative, hsplit] at hread
    rw [NumberStyle.signChars, if_neg Bool.false_ne_true, List.nil_append, hsplit,
      read_digits_append h.whole, hread]
    rfl

/-- A whole number in JSON carries a zero after the point, which a numeral may. -/
theorem bareSuffix_json : NumberStyle.json.BareSuffix := Or.inr rfl

/-- **A decimal that is written and read is scaled from the decimal that stands in the text**, which
is of the same size. -/
theorem exists_read_decimalChars (negative : Bool) (hlt : d.coefficient < wordCount)
    (hleast : -324 ≤ d.exponent) (hmost : d.exponent ≤ 308)
    (hzero : d.coefficient = 0 → d.exponent = 0) :
    ∃ d', decimal? (NumberStyle.json.decimalChars d) = some d' ∧ d'.size = d.size ∧
      d'.coefficient < wordCount ∧ (d' = d ∨ d'.exponent = -1) ∧
      ∀ x, scale 3 d'.coefficient.toUInt64.toFloat d'.exponent = .ok x →
        ∀ rest, IsEnd rest →
          Head.read (NumberStyle.signChars negative ++ NumberStyle.json.decimalChars d ++ rest) =
            .ok (.number (.real (signed negative x)), rest) := by
  obtain ⟨numeral, rfl, hwrites⟩ := exists_writes negative hlt hleast hmost hzero
  have hdecimal := decimal?_chars hwrites.wellFormed
  rw [hwrites.chars_eq] at hdecimal
  refine ⟨numeral.decimal, hdecimal, ?_, hwrites.coefficient_lt, hwrites.decimal_eq,
    fun x hx rest hrest => ?_⟩
  · obtain ⟨d', hd', hsize⟩ := NumberStyle.reads_decimalChars bareSuffix_json d
    rw [hdecimal] at hd'
    rw [Option.some_inj.mp hd', hsize]
  · have hvalue := value_eq_real hwrites.coefficient_lt hwrites.isReal hwrites.exponent_le
    rw [hx] at hvalue
    rw [← hwrites.chars_eq]
    exact read_numeral hwrites.wellFormed hrest hvalue

/-- A word that is written is read as this word. -/
theorem read_toDigits (n : UInt64) (hrest : IsEnd rest) :
    Head.read (Nat.toDigits 10 n.toNat ++ rest) = .ok (.number (.word n), rest) := by
  have hwellFormed : Numeral.WellFormed ⟨false, Nat.toDigits 10 n.toNat, none, none⟩ := by
    refine ⟨isDigits_toDigits n.toNat, fun hlong => head?_toDigits_ne (Nat.pos_of_ne_zero
      fun hn => ?_), by simp, by simp⟩
    rw [hn] at hlong
    simp at hlong
  have hword : ofDigits (Nat.toDigits 10 n.toNat) < wordCount := by
    rw [ofDigits_toDigits]
    exact n.toNat_lt
  have hvalue := value_eq_word hword
  rw [ofDigits_toDigits, show n.toNat.toUInt64 = n from UInt64.ofNat_toNat] at hvalue
  have hread := read_numeral hwellFormed hrest hvalue
  rwa [Numeral.chars, Numeral.fractionChars, Numeral.exponentChars, List.append_nil,
    List.append_nil] at hread

end Head

end FlowControl.Json
