import FlowControl.Settings
import FlowControl.Proofs.Decimal.ReadBack
import FlowControl.Proofs.Text.Trim

/-!
# Settings that are handed over as texts

The numbers of the chosen policy are handed over as a map of texts. Nothing is lost on the way: what
is made of the map is what the check makes of the numbers, and a number that is not finite is
refused under its own name and text.
-/

namespace FlowControl

namespace PolicySettings

variable {parameter : Parameter} {x : Float}

/-- The numbers that are handed over, in the order in which they are read. -/
def values (settings : PolicySettings) : List (Parameter × Float) :=
  [(.highRatio, settings.highRatio), (.lowRatio, settings.lowRatio), (.factor, settings.factor)]

/-- The map holds a text for each number, in the order of the keys. -/
theorem entries_parameters (settings : PolicySettings) :
    settings.parameters.entries =
      [(Parameter.factor.key, NumberStyle.plain.render settings.factor),
       (Parameter.highRatio.key, NumberStyle.plain.render settings.highRatio),
       (Parameter.lowRatio.key, NumberStyle.plain.render settings.lowRatio)] := by
  have hlow : ¬ Parameter.lowRatio.key < Parameter.highRatio.key := by decide
  have hne : Parameter.lowRatio.key ≠ Parameter.highRatio.key := by decide
  have hfactor : Parameter.factor.key < Parameter.highRatio.key := by decide
  simp only [parameters, Dictionary.ofList, List.foldl, Dictionary.insert, Dictionary.empty,
    Dictionary.putEntry, if_neg hlow, if_neg hne, if_pos hfactor]

/-- What the map holds for a parameter is the text of its number. -/
theorem get?_parameters {settings : PolicySettings} (h : (parameter, x) ∈ settings.values) :
    settings.parameters.get? parameter.key = some (NumberStyle.plain.render x) := by
  rw [← Dictionary.mem_entries_iff, entries_parameters]
  simp only [values, List.mem_cons, Prod.mk.injEq, List.not_mem_nil, or_false] at h
  rcases h with ⟨rfl, rfl⟩ | ⟨rfl, rfl⟩ | ⟨rfl, rfl⟩ <;> simp

end PolicySettings

namespace Tuning

variable {parameters : Dictionary String} {parameter : Parameter} {x : Float}

/-- The reading of a parameter whose text is that of a number. -/
theorem readParameter_of_get?
    (h : parameters.get? parameter.key = some (NumberStyle.plain.render x)) :
    readParameter parameters parameter =
      if x.isFinite then .ok x
      else .error (.invalidNumber parameter (NumberStyle.plain.render x)) := by
  have hread : ∃ y, Numeral.real? (NumberStyle.plain.chars x) = some y ∧
      (if x.isFinite then y = x else y.isFinite = false) := by
    by_cases hx : x.isFinite = true
    · exact ⟨x, Numeral.real?_chars (Or.inl rfl) hx, by rw [if_pos hx]⟩
    · obtain ⟨y, hy, hfinite⟩ :=
        Numeral.exists_real?_chars_plain (Bool.eq_false_of_not_eq_true hx)
      exact ⟨y, hy, by rwa [if_neg hx]⟩
  obtain ⟨y, hy, hfinite⟩ := hread
  have htrim : Text.trim (NumberStyle.plain.render x).toList = NumberStyle.plain.chars x := by
    rw [NumberStyle.render, String.toList_ofList]
    exact Text.trim_eq_self (Numeral.not_isBlank_of_real? hy)
  simp only [readParameter, h, htrim, hy]
  split_ifs at hfinite with hx
  · rw [hfinite]
  · rw [hfinite, if_neg Bool.false_ne_true, if_neg hx]

/-- **Settings are handed over without loss.** If all their numbers are finite, what the map of
their texts gives is what the check gives for the numbers: the same tuning, or the same fault with
the same numbers in it. Otherwise the first number that is not finite is refused, with its text. -/
theorem ofParameters_parameters (settings : PolicySettings) :
    ofParameters settings.parameters =
      match settings.values.find? (fun value => !value.2.isFinite) with
      | none => check settings.highRatio settings.lowRatio settings.factor
      | some (parameter, x) =>
        .error (.invalidNumber parameter (NumberStyle.plain.render x)) := by
  have hsize : settings.parameters.size = parameterCount := by
    rw [Dictionary.size, PolicySettings.entries_parameters]
    rfl
  have hread (value : Parameter × Float) (h : value ∈ settings.values) :
      readParameter settings.parameters value.1 = _ :=
    readParameter_of_get? (PolicySettings.get?_parameters h)
  rw [PolicySettings.values, List.forall_mem_cons, List.forall_mem_cons,
    List.forall_mem_singleton] at hread
  obtain ⟨hhigh, hlow, hfactor⟩ := hread
  rw [ofParameters, if_neg (not_not_intro hsize), hhigh, hlow, hfactor, PolicySettings.values]
  cases hhigh : settings.highRatio.isFinite <;> cases hlow : settings.lowRatio.isFinite <;>
    cases hfactor : settings.factor.isFinite <;>
    simp [hhigh, hlow, hfactor] <;> rfl

end Tuning

end FlowControl
