import FlowControl.Json.Schema
import FlowControl.Proofs.Binary64.Decimals

/-!
# Numbers that are read are finite

A text in JSON names neither an infinity nor what is not a number, and a number that is too large
is refused. So all numbers of a record that is read are finite, whatever its schema.
-/

namespace FlowControl

open Binary64

section Success

variable {ε ε' α β : Type}

/-- Two steps succeed if the first one does and the second one does with its result. -/
theorem bind_eq_ok {x : Except ε α} {f : α → Except ε β} {b : β} :
    x >>= f = .ok b ↔ ∃ a, x = .ok a ∧ f a = .ok b := by
  cases x <;> simp [bind, Except.bind]

/-- A result that was changed is one whose value was changed. -/
theorem map_eq_ok {x : Except ε α} {f : α → β} {b : β} :
    x.map f = .ok b ↔ ∃ a, x = .ok a ∧ f a = b := by
  cases x <;> simp [Except.map]

/-- To change the fault of a result changes no value. -/
theorem mapError_eq_ok {x : Except ε α} {f : ε → ε'} {a : α} :
    x.mapError f = .ok a ↔ x = .ok a := by
  cases x <;> simp [Except.mapError]

/-- What is returned is the value of the result. -/
theorem pure_eq_ok {a b : α} : (pure a : Except ε α) = .ok b ↔ a = b := by
  simp [pure, Except.pure]

end Success

namespace Json

/-- A word is a finite number. -/
theorem isFinite_wordToFloat (n : UInt64) : n.toFloat.isFinite = true :=
  (hasSize_toFloat n).isFinite_iff.mpr WithTop.coe_ne_top

namespace Numeral

variable {x y : Float} {p : ℚ}

/-- A power of ten is rounded. -/
theorem hasSize_tenTo_rounded (n : ℕ) : HasSize (tenTo n) (rounded (10 ^ n)) := by
  have hdecimal := hasSize_decimal ⟨1, n⟩
  rwa [Decimal.size, Nat.cast_one, one_mul, zpow_natCast] at hdecimal

/-- A power of ten up to the greatest one is a size of at least one. -/
theorem exists_hasSize_tenTo {n : ℕ} (h : n ≤ greatestTenExponent) :
    ∃ p : ℚ, HasSize (tenTo n) p ∧ 1 ≤ p := by
  have hsize := hasSize_tenTo_rounded n
  have hone : (1 : ℚ) ≤ 10 ^ n := one_le_pow₀ (by norm_num)
  have hmost : (10 : ℚ) ^ n ≤ 3 * 2 ^ 1022 := by
    calc (10 : ℚ) ^ n ≤ 10 ^ 308 := pow_le_pow_right₀ (by norm_num) h
      _ ≤ 3 * 2 ^ 1022 := by exact_mod_cast (by decide +kernel : 10 ^ 308 ≤ 3 * 2 ^ 1022)
  have hlimit : (3 : ℚ) * 2 ^ 1022 < 2 ^ 1024 := by
    exact_mod_cast (by decide +kernel : 3 * 2 ^ 1022 < 2 ^ 1024)
  have hrepresentable : Representable (3 * 2 ^ 1022) := by
    exact_mod_cast Representable.of_mul (show 3 ≤ 2 ^ 53 by norm_num)
      (show (-1074 : ℤ) ≤ 1022 by norm_num)
  have hlow := le_rounded Representable.one (one_lt_pow₀ one_lt_two (by norm_num)) hone
  have hhigh := rounded_le hrepresentable hlimit (by positivity) hmost
  generalize rounded (10 ^ n) = size at hsize hlow hhigh
  lift size to ℚ using ne_top_of_le_ne_top WithTop.coe_ne_top hhigh
  exact ⟨size, hsize, WithTop.coe_le_coe.mp hlow⟩

/-- A size that is divided by a power of ten stays finite. -/
theorem exists_hasSize_div_tenTo {n : ℕ} (h : n ≤ greatestTenExponent) (hx : HasSize x p) :
    ∃ q : ℚ, HasSize (x / tenTo n) q := by
  obtain ⟨t, ht, hone⟩ := exists_hasSize_tenTo h
  have hp : 0 ≤ p := WithTop.coe_le_coe.mp hx.nonneg
  have hquotient := hx.div ht (one_pos.trans_le hone)
  have hle : rounded (p / t) ≤ p :=
    rounded_le hx.representable hx.lt_two_pow (by positivity) (div_le_self hp hone)
  generalize rounded (p / t) = size at hquotient hle
  lift size to ℚ using ne_top_of_le_ne_top WithTop.coe_ne_top hle
  exact ⟨size, hquotient⟩

/-- What a size is scaled to in one piece is a size, as what is too large is refused. -/
theorem exists_hasSize_scale_of_le {pieces : ℕ} {e : ℤ} (he : e.natAbs ≤ greatestTenExponent)
    (hx : HasSize x p) (h : scale pieces x e = .ok y) : ∃ q : ℚ, HasSize y q := by
  unfold scale at h
  rw [if_pos he] at h
  dsimp only at h
  split_ifs at h with hnonneg hinf
  · obtain rfl := Except.ok.inj h
    obtain ⟨t, ht, -⟩ := exists_hasSize_tenTo he
    have hproduct := hx.mul ht
    generalize rounded (p * t) = size at hproduct
    lift size to ℚ using mt hproduct.isInf_iff.mpr hinf
    exact ⟨size, hproduct⟩
  · obtain rfl := Except.ok.inj h
    exact exists_hasSize_div_tenTo he hx

/-- What a size is scaled to is a size. -/
theorem exists_hasSize_scale {pieces : ℕ} {e : ℤ} (hx : HasSize x p)
    (h : scale pieces x e = .ok y) : ∃ q : ℚ, HasSize y q := by
  induction pieces generalizing x e p with
  | zero =>
    by_cases he : e.natAbs ≤ greatestTenExponent
    · exact exists_hasSize_scale_of_le he hx h
    rw [scale, if_neg he] at h
    split_ifs at h
    · obtain rfl := Except.ok.inj h
      exact ⟨p, hx⟩
    · obtain rfl := Except.ok.inj h
      exact ⟨0, hasSize_zero⟩
  | succ pieces ih =>
    by_cases he : e.natAbs ≤ greatestTenExponent
    · exact exists_hasSize_scale_of_le he hx h
    rw [scale, if_neg he] at h
    split_ifs at h
    · obtain rfl := Except.ok.inj h
      exact ⟨p, hx⟩
    · obtain ⟨q, hq⟩ := exists_hasSize_div_tenTo le_rfl hx
      exact ih hq h

/-- A sign does not change whether a number is finite. -/
theorem isFinite_signed (negative : Bool) (x : Float) :
    (signed negative x).isFinite = x.isFinite := by
  cases negative with
  | false => rfl
  | true => exact isFinite_neg x

/-- A number that could be scaled is finite, with or without a sign. -/
theorem isFinite_scale {n : UInt64} {pieces : ℕ} {e : ℤ} {negative : Bool}
    (h : (scale pieces n.toFloat e).map (signed negative) = .ok x) : x.isFinite = true := by
  obtain ⟨y, hy, rfl⟩ := map_eq_ok.mp h
  obtain ⟨q, hq⟩ := exists_hasSize_scale (hasSize_toFloat n) hy
  rw [isFinite_signed]
  exact hq.isFinite_iff.mpr WithTop.coe_ne_top

/-- A real number that is read is finite. -/
theorem isFinite_real {negative : Bool} {significand : ℕ} {shift : ℤ}
    {exponent : Option (Bool × List Char)} (h : real negative significand shift exponent = .ok x) :
    x.isFinite = true := by
  cases exponent with
  | none => exact isFinite_scale h
  | some written =>
    obtain ⟨negativeExponent, digits⟩ := written
    simp only [real] at h
    split_ifs at h with hlong htoo
    · obtain rfl := Except.ok.inj h
      rw [isFinite_signed]
      exact hasSize_zero.isFinite_iff.mpr WithTop.zero_ne_top
    · exact isFinite_scale h
    · exact isFinite_scale h

/-- A whole number that was read is finite. -/
theorem isFinite_wholeNumber (negative : Bool) (significand : ℕ) :
    (wholeNumber negative significand).toFloat.isFinite = true := by
  unfold wholeNumber
  split_ifs
  · exact isFinite_wordToFloat _
  · exact (isFinite_neg _).trans (isFinite_wordToFloat _)
  · exact (isFinite_neg _).trans (isFinite_wordToFloat _)

/-- The number that the parts of a numeral stand for is finite. -/
theorem isFinite_value {numeral : Numeral} {number : Number} (h : numeral.value = .ok number) :
    number.toFloat.isFinite = true := by
  unfold value at h
  dsimp only at h
  split_ifs at h
  · obtain rfl := Except.ok.inj h
    exact isFinite_wholeNumber _ _
  · obtain ⟨x, hx, rfl⟩ := map_eq_ok.mp h
    exact isFinite_real hx

end Numeral

/-- If the start of a value is a number, then it is finite. -/
def Head.IsFinite : Head → Prop
  | number value => value.toFloat.isFinite = true
  | _ => True

/-- Every number that is read is finite. -/
theorem Number.isFinite_of_read {negative : Bool} {cs rest : List Char} {number : Number}
    (h : Number.read negative cs = .ok (number, rest)) : number.toFloat.isFinite = true := by
  obtain ⟨⟨numeral, after⟩, -, hvalue⟩ := bind_eq_ok.mp h
  obtain ⟨number', hnumber, heq⟩ := bind_eq_ok.mp hvalue
  obtain rfl := (Prod.mk.inj (pure_eq_ok.mp heq)).1
  exact Numeral.isFinite_value hnumber

/-- A number at the start of a value comes after a sign or at a digit. -/
theorem Head.exists_read_of_readTight {tight rest : List Char} {value : Number}
    (h : readTight tight = .ok (.number value, rest)) :
    ∃ negative cs, Number.read negative cs = .ok (value, rest) := by
  cases tight with
  | nil => cases h
  | cons c cs =>
    simp only [readTight] at h
    split_ifs at h
    -- nothing, the truth values, a string, and the two brackets
    · simp [map_eq_ok] at h
    · simp [map_eq_ok] at h
    · simp [map_eq_ok] at h
    · simp [map_eq_ok] at h
    · cases h
    · cases h
    -- a sign and a digit
    · exact ⟨true, cs, by simpa [map_eq_ok] using h⟩
    · exact ⟨false, c :: cs, by simpa [map_eq_ok] using h⟩

/-- If a value that is read starts with a number, then that is finite. -/
theorem Head.isFinite_of_read {cs rest : List Char} {head : Head}
    (h : Head.read cs = .ok (head, rest)) : head.IsFinite := by
  cases head with
  | number value =>
    obtain ⟨negative, cs', hread⟩ := exists_read_of_readTight h
    exact Number.isFinite_of_read hread
  | _ => trivial

namespace Kind

/-- The numbers that a field holds are finite. -/
def IsFinite : (kind : Kind) → kind.Carrier → Prop
  | real, x => x.isFinite = true
  | optionalReal, x => ∀ y ∈ x, y.isFinite = true
  | reals, xs => ∀ x ∈ xs, x.isFinite = true
  | _, _ => True

variable {cs rest : List Char} {head : Head}

/-- A value that is made of a finite start is finite. -/
theorem isFinite_of_ofHead {kind : Kind} {value : kind.Carrier} (hhead : head.IsFinite)
    (h : kind.ofHead head = .ok value) : kind.IsFinite value := by
  cases kind with
  | real =>
    cases head with
    | number n => exact Except.ok.inj h ▸ hhead
    | _ => cases h
  | optionalReal =>
    cases head with
    | null =>
      obtain rfl := Except.ok.inj h
      exact fun y hy => absurd hy (Option.not_mem_none y)
    | number n =>
      obtain rfl := Except.ok.inj h
      exact fun y hy => Option.mem_some.mp hy ▸ hhead
    | _ => cases h
  | reals => cases head <;> cases h
  | word _ => trivial
  | flag => trivial
  | text => trivial
  | stamp => trivial

/-- A start that is read where a value may have parts is finite as well. -/
theorem isFinite_of_readHead (h : readHead cs = .ok (head, rest)) : head.IsFinite :=
  Head.isFinite_of_read (mapError_eq_ok.mp h)

/-- The numbers of a list are finite, by induction on the bound for their number. -/
theorem isFinite_of_readReals {fuel : ℕ} {first : Bool} {xs : List Float}
    (h : readReals fuel first cs = .ok (xs, rest)) : ∀ x ∈ xs, x.isFinite = true := by
  induction fuel generalizing first cs xs rest with
  | zero => cases h
  | succ fuel ih =>
    obtain ⟨continuation, -, h⟩ := bind_eq_ok.mp h
    cases continuation with
    | closing after =>
      obtain rfl := (Prod.mk.inj (pure_eq_ok.mp h)).1
      exact fun x hx => absurd hx List.not_mem_nil
    | entry after =>
      obtain ⟨⟨head, afterHead⟩, hhead, h⟩ := bind_eq_ok.mp h
      obtain ⟨x, hx, h⟩ := bind_eq_ok.mp h
      obtain ⟨⟨ys, last⟩, hys, h⟩ := bind_eq_ok.mp h
      obtain rfl := (Prod.mk.inj (pure_eq_ok.mp h)).1
      have hfirst : x.isFinite = true :=
        isFinite_of_ofHead (isFinite_of_readHead hhead) hx
      exact List.forall_mem_cons.mpr ⟨hfirst, ih hys⟩

/-- A value other than a list is read by its start. -/
theorem read_of_ne {kind : Kind} (h : kind ≠ .reals) (cs : List Char) :
    kind.read cs = do
      let (head, rest) ← readHead cs
      let value ← kind.ofHead head
      return (value, rest) := by
  cases kind <;> first | rfl | exact absurd rfl h

/-- The numbers of a field that is read are finite. -/
theorem isFinite_of_read {kind : Kind} {value : kind.Carrier}
    (h : kind.read cs = .ok (value, rest)) : kind.IsFinite value := by
  by_cases hkind : kind = .reals
  · subst hkind
    obtain ⟨⟨head, afterHead⟩, -, h⟩ := bind_eq_ok.mp h
    cases head with
    | list => exact isFinite_of_readReals h
    | _ => cases h
  · rw [read_of_ne hkind] at h
    obtain ⟨⟨head, afterHead⟩, hhead, h⟩ := bind_eq_ok.mp h
    obtain ⟨value', hvalue, h⟩ := bind_eq_ok.mp h
    obtain rfl := (Prod.mk.inj (pure_eq_ok.mp h)).1
    exact isFinite_of_ofHead (isFinite_of_readHead hhead) hvalue

end Kind

/-- The numbers of a record are finite. -/
def Row.IsFinite : (fields : List Field) → Row fields → Prop
  | [], () => True
  | field :: fields, (value, row) => field.kind.IsFinite value ∧ IsFinite fields row

/-- The numbers of a record that is being read are finite. -/
def Slots.IsFinite : (fields : List Field) → Slots fields → Prop
  | [], () => True
  | field :: fields, (slot, slots) =>
    (∀ value ∈ slot, field.kind.IsFinite value) ∧ IsFinite fields slots

namespace Slots

variable {cs rest : List Char}

/-- Before anything is read there is no number. -/
theorem isFinite_empty (fields : List Field) : IsFinite fields (empty fields) := by
  induction fields with
  | nil => trivial
  | cons field fields ih =>
    exact ⟨fun value hvalue => absurd hvalue (Option.not_mem_none value), ih⟩

/-- One entry of a record leaves its numbers finite, by induction on the fields. -/
theorem isFinite_of_readInto {key : String} {fields : List Field} {slots filled : Slots fields}
    (hslots : IsFinite fields slots) (h : readInto key fields slots cs = .ok (filled, rest)) :
    IsFinite fields filled := by
  induction fields generalizing rest with
  | nil => trivial
  | cons field fields ih =>
    obtain ⟨slot, slots⟩ := slots
    unfold readInto at h
    split_ifs at h with hkey
    · cases slot with
      | some value => cases h
      | none =>
        obtain ⟨afterColon, -, h⟩ := bind_eq_ok.mp h
        obtain ⟨⟨value, afterValue⟩, hvalue, h⟩ := bind_eq_ok.mp h
        obtain rfl := (Prod.mk.inj (pure_eq_ok.mp h)).1
        exact ⟨fun _ hmem => Option.mem_some.mp hmem ▸ Kind.isFinite_of_read hvalue, hslots.2⟩
    · obtain ⟨⟨others, afterOthers⟩, hothers, h⟩ := bind_eq_ok.mp h
      obtain rfl := (Prod.mk.inj (pure_eq_ok.mp h)).1
      exact ⟨hslots.1, ih hslots.2 hothers⟩

/-- All entries of a record leave its numbers finite, by induction on the bound for their
number. -/
theorem isFinite_of_readEntries {fields : List Field} {fuel : ℕ} {first : Bool}
    {slots filled : Slots fields} (hslots : IsFinite fields slots)
    (h : readEntries fields fuel first slots cs = .ok (filled, rest)) :
    IsFinite fields filled := by
  induction fuel generalizing first slots cs with
  | zero => cases h
  | succ fuel ih =>
    obtain ⟨continuation, -, h⟩ := bind_eq_ok.mp h
    cases continuation with
    | closing after => exact (Prod.mk.inj (pure_eq_ok.mp h)).1 ▸ hslots
    | entry after =>
      obtain ⟨⟨key, afterKey⟩, -, h⟩ := bind_eq_ok.mp h
      obtain ⟨⟨next, afterNext⟩, hnext, h⟩ := bind_eq_ok.mp h
      exact ih (isFinite_of_readInto hslots hnext) h

/-- What a field holds that was left out is no number. -/
theorem isFinite_of_absent {kind : Kind} {value : kind.Carrier} (h : kind.absent? = some value) :
    kind.IsFinite value := by
  cases kind with
  | optionalReal =>
    obtain rfl := Option.some_inj.mp h
    exact fun y hy => absurd hy (Option.not_mem_none y)
  | _ => cases h

/-- A record whose slots hold finite numbers has finite numbers. -/
theorem isFinite_of_toRow {fields : List Field} {slots : Slots fields} {row : Row fields}
    (hslots : IsFinite fields slots) (h : toRow fields slots = .ok row) :
    Row.IsFinite fields row := by
  induction fields with
  | nil => trivial
  | cons field fields ih =>
    obtain ⟨slot, slots⟩ := slots
    unfold toRow at h
    split at h
    · cases h
    · next value hvalue =>
      obtain ⟨others, hothers, rfl⟩ := map_eq_ok.mp h
      refine ⟨?_, ih hslots.2 hothers⟩
      cases slot with
      | some held => exact hslots.1 value hvalue
      | none => exact isFinite_of_absent hvalue

end Slots

namespace Schema

variable {schema : Schema} {cs rest : List Char}

/-- The numbers of a record that is read from a list are finite, by induction on the fields. -/
theorem isFinite_of_readItems {fields : List Field} {index : ℕ} {row : Row fields}
    (h : schema.readItems fields index cs = .ok (row, rest)) : Row.IsFinite fields row := by
  induction fields generalizing index cs rest with
  | nil => trivial
  | cons field fields ih =>
    obtain ⟨continuation, -, h⟩ := bind_eq_ok.mp h
    cases continuation with
    | closing after => cases h
    | entry after =>
      obtain ⟨⟨value, afterValue⟩, hvalue, h⟩ := bind_eq_ok.mp h
      obtain ⟨⟨others, last⟩, hothers, h⟩ := bind_eq_ok.mp h
      obtain rfl := (Prod.mk.inj (pure_eq_ok.mp h)).1
      exact ⟨Kind.isFinite_of_read hvalue, ih hothers⟩

/-- The numbers of a record that is read are finite. -/
theorem isFinite_of_read {row : Row schema.fields} (h : schema.read cs = .ok (row, rest)) :
    Row.IsFinite schema.fields row := by
  obtain ⟨⟨head, afterHead⟩, -, h⟩ := bind_eq_ok.mp h
  cases head with
  | record =>
    obtain ⟨⟨slots, last⟩, hslots, h⟩ := bind_eq_ok.mp h
    obtain ⟨row', hrow, h⟩ := bind_eq_ok.mp h
    obtain rfl := (Prod.mk.inj (pure_eq_ok.mp h)).1
    exact Slots.isFinite_of_toRow
      (Slots.isFinite_of_readEntries (Slots.isFinite_empty _) hslots) hrow
  | list =>
    obtain ⟨⟨row', afterRow⟩, hrow, h⟩ := bind_eq_ok.mp h
    obtain ⟨last, -, h⟩ := bind_eq_ok.mp h
    obtain rfl := (Prod.mk.inj (pure_eq_ok.mp h)).1
    exact isFinite_of_readItems hrow
  | _ => cases h

/-- **All numbers of a record that a text is are finite.** -/
theorem isFinite_of_decode {text : String} {row : Row schema.fields}
    (h : schema.decode text = .ok row) : Row.IsFinite schema.fields row := by
  obtain ⟨⟨row', rest⟩, hrow, h⟩ := bind_eq_ok.mp h
  obtain ⟨_, -, h⟩ := bind_eq_ok.mp h
  obtain rfl := pure_eq_ok.mp h
  exact isFinite_of_read hrow

end Schema

end Json

end FlowControl
