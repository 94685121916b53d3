import FlowControl.Records
import FlowControl.Proofs.Flow.Law
import FlowControl.Proofs.Json.Finite

/-!
# Validated tunings

A tuning is obtained in three ways: of three numbers, of a map of parameters, or of a text in
JSON. The first two check what they are given, so the tunings they give are validated. What is
read from JSON is not checked. Its numbers are finite, and it is validated exactly if the check
accepts it, but no more than that.
-/

namespace FlowControl

open Binary64

namespace Tuning

/-- What is promised of the numbers of a tuning. -/
structure Validated (tuning : Tuning) : Prop where
  low_pos : 0 < tuning.lowRatio
  low_lt_high : tuning.lowRatio < tuning.highRatio
  high_le_one : tuning.highRatio ≤ 1
  isFinite_factor : tuning.factor.isFinite = true
  one_le_factor : 1 ≤ tuning.factor

/-- The numbers of a tuning are neither infinite nor no numbers. -/
structure IsFinite (tuning : Tuning) : Prop where
  high : tuning.highRatio.isFinite = true
  low : tuning.lowRatio.isFinite = true
  factor : tuning.factor.isFinite = true

variable {tuning : Tuning} {high low factor : Float}

/-- What the check accepts is validated. -/
theorem validated_of_check (h : check high low factor = .ok tuning) : tuning.Validated := by
  obtain ⟨p, q, r, haccepted⟩ := exists_accepted h
  have hone : (1 : WithTop ℚ) ≤ r := WithTop.coe_le_coe.mpr haccepted.one_le_factor
  exact {
    low_pos := (hasSize_zero.lt_iff haccepted.hasSize_low).mpr
      (WithTop.coe_lt_coe.mpr haccepted.low_pos)
    low_lt_high := (haccepted.hasSize_low.lt_iff haccepted.hasSize_high).mpr
      (WithTop.coe_lt_coe.mpr haccepted.low_lt_high)
    high_le_one := (haccepted.hasSize_high.le_iff hasSize_one).mpr
      (WithTop.coe_le_coe.mpr haccepted.high_le_one)
    isFinite_factor := haccepted.hasSize_factor.isFinite_iff.mpr WithTop.coe_ne_top
    one_le_factor := (hasSize_one.le_iff haccepted.hasSize_factor).mpr hone }

/-- The check accepts what is validated. -/
theorem Validated.check_eq (h : tuning.Validated) :
    check tuning.highRatio tuning.lowRatio tuning.factor = .ok tuning := by
  obtain ⟨l, hl⟩ := exists_hasSize_of_lt hasSize_zero h.low_pos
  obtain ⟨s, hs⟩ := exists_hasSize_of_lt hl h.low_lt_high
  obtain ⟨f, hf⟩ := exists_hasSize_of_le hasSize_one one_ne_zero h.one_le_factor
  have hlow_pos := (hasSize_zero.lt_iff hl).mp h.low_pos
  have hlow_lt := (hl.lt_iff hs).mp h.low_lt_high
  have hhigh_le := (hs.le_iff hasSize_one).mp h.high_le_one
  have hhigh : IsRatio tuning.highRatio :=
    ⟨(hasSize_zero.lt_iff hs).mpr (hlow_pos.trans hlow_lt), h.high_le_one⟩
  have hlow : IsRatio tuning.lowRatio :=
    ⟨h.low_pos, (hl.le_iff hasSize_one).mpr (hlow_lt.le.trans hhigh_le)⟩
  have horder : ¬ tuning.highRatio ≤ tuning.lowRatio :=
    mt (hs.le_iff hl).mp (not_le.mpr hlow_lt)
  have hfactor : ¬ (¬ 1 ≤ tuning.factor ∨ tuning.factor.isInf = true) :=
    not_or.mpr ⟨not_not_intro h.one_le_factor,
      mt hf.isInf_iff.mp (hf.isFinite_iff.mp h.isFinite_factor)⟩
  rw [check, if_neg (not_not_intro hhigh), if_neg (not_not_intro hlow), if_neg horder,
    if_neg hfactor]

/-- The numbers of a tuning that is read from JSON are finite. -/
theorem isFinite_of_decode {text : String} (h : decode text = .ok tuning) :
    tuning.IsFinite := by
  obtain ⟨⟨high, low, factor, _⟩, hrow, rfl⟩ := map_eq_ok.mp h
  obtain ⟨hhigh, hlow, hfactor, -⟩ := Json.Schema.isFinite_of_decode hrow
  exact ⟨hhigh, hlow, hfactor⟩

/-- The numbers of a validated tuning are finite. -/
theorem Validated.isFinite (h : tuning.Validated) : tuning.IsFinite := by
  obtain ⟨p, q, r, haccepted⟩ := exists_accepted h.check_eq
  exact ⟨haccepted.hasSize_high.isFinite_iff.mpr WithTop.coe_ne_top,
    haccepted.hasSize_low.isFinite_iff.mpr WithTop.coe_ne_top, h.isFinite_factor⟩

/-- What a tuning is obtained of. -/
inductive Origin where
  /-- Three numbers. -/
  | numbers (high low factor : Float)
  /-- A map of parameters. -/
  | parameters (entries : Dictionary String)
  /-- A text in JSON. -/
  | json (text : String)

namespace Origin

/-- Whether a tuning is what is obtained. -/
def Gives (tuning : Tuning) : Origin → Prop
  | numbers high low factor => check high low factor = .ok tuning
  | parameters entries => ofParameters entries = .ok tuning
  | json text => decode text = .ok tuning

/-- Whether what is given is checked. -/
def IsChecked : Origin → Prop
  | json _ => False
  | _ => True

end Origin

/-- A map of parameters is checked like the numbers that it holds. -/
theorem validated_of_ofParameters {parameters : Dictionary String}
    (h : ofParameters parameters = .ok tuning) : tuning.Validated := by
  unfold ofParameters at h
  split_ifs at h
  obtain ⟨high, -, h⟩ := bind_eq_ok.mp h
  obtain ⟨low, -, h⟩ := bind_eq_ok.mp h
  obtain ⟨factor, -, h⟩ := bind_eq_ok.mp h
  exact validated_of_check h

/-- **What is promised of a tuning, by the way it was obtained.** Its numbers are always finite.
It is validated exactly if the check accepts its own numbers, and then the check gives it back.
Whatever was obtained of numbers or of parameters is validated. -/
theorem validated_of_gives {origin : Origin} (h : origin.Gives tuning) :
    tuning.IsFinite ∧
    (tuning.Validated ↔
      check tuning.highRatio tuning.lowRatio tuning.factor = .ok tuning) ∧
    (origin.IsChecked → tuning.Validated) := by
  have hchecked (hchecked : origin.IsChecked) : tuning.Validated := by
    cases origin with
    | numbers high low factor => exact validated_of_check h
    | parameters entries => exact validated_of_ofParameters h
    | json text => exact hchecked.elim
  refine ⟨?_, ⟨Validated.check_eq, validated_of_check⟩, hchecked⟩
  cases origin with
  | numbers high low factor => exact (hchecked trivial).isFinite
  | parameters entries => exact (hchecked trivial).isFinite
  | json text => exact isFinite_of_decode h

/-- What is read from a text, by a part of it that can be evaluated. -/
theorem exists_decode_of_map {α : Type} {text : String} {f : Tuning → α} {a : α}
    (h : (decode text).toOption.map f = some a) :
    ∃ tuning, decode text = .ok tuning ∧ f tuning = a := by
  cases hread : decode text with
  | error fault => simp [hread, Except.toOption] at h
  | ok tuning => exact ⟨tuning, rfl, by simpa [hread, Except.toOption] using h⟩

/-- The same tuning, of its numbers and of a text. -/
theorem validated_of_gives_tenth :
    let tuning : Tuning := ⟨0.9, 0.1, 10⟩
    (Origin.numbers 0.9 0.1 10).Gives tuning ∧
      (Origin.json "[0.9, 0.1, 10]").Gives tuning ∧ tuning.Validated := by
  intro tuning
  have hcheck : check 0.9 0.1 10 = .ok tuning := by
    rw [check, if_neg (by decide), if_neg (by decide), if_neg (by decide), if_neg (by decide)]
  have hnumbers : (Origin.numbers 0.9 0.1 10).Gives tuning := hcheck
  have hread : (decode "[0.9, 0.1, 10]").toOption.map toRow = some (0.9, 0.1, 10, ()) := by
    decide +kernel
  obtain ⟨⟨high, low, factor⟩, hdecode, hrow⟩ := exists_decode_of_map hread
  obtain ⟨rfl, rfl, rfl, -⟩ : high = 0.9 ∧ low = 0.1 ∧ factor = 10 ∧ True := by
    simpa [toRow] using hrow
  exact ⟨hnumbers, hdecode, (validated_of_gives hnumbers).2.2 trivial⟩

/-- What is read from JSON need not be validated. -/
theorem decode_not_validated :
    ¬ ∀ text tuning, (Origin.json text).Gives tuning → tuning.Validated := by
  intro h
  have hread : (decode "[2.0, 0.5, 0.5]").toOption.map highRatio = some 2 := by decide +kernel
  obtain ⟨tuning, hdecode, hhigh⟩ := exists_decode_of_map hread
  have hle : tuning.highRatio ≤ 1 := (h _ tuning hdecode).high_le_one
  rw [hhigh] at hle
  exact absurd hle (by decide)

end Tuning

end FlowControl
