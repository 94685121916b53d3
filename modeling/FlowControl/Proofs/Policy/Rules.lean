import FlowControl.Policy.Basic
import FlowControl.Proofs.Binary64.Order
import FlowControl.Proofs.Dictionary.Extensional
import FlowControl.Proofs.Policy.Validated
import FlowControl.Proofs.Text.Trim

/-!
# The rules for parameters

A parameter map and a window have to keep ten rules, which stand in one order. A map that keeps them
all describes a policy with the numbers that its texts are, and one that does not is refused with
the fault of the first rule that it breaks. Blanks around the texts show in no more than the text of
such a fault.
-/

namespace FlowControl

/-- The number of a parameter. -/
def Tuning.value (tuning : Tuning) : Parameter → Float
  | .highRatio => tuning.highRatio
  | .lowRatio => tuning.lowRatio
  | .factor => tuning.factor

/-- A fault with another text in it, if there is a text in it. -/
def PolicyFault.mapText (f : Parameter → String → String) : PolicyFault → PolicyFault
  | invalidNumber parameter text => invalidNumber parameter (f parameter text)
  | fault => fault

namespace Policy

/-- What a parameter map and a window are checked for. -/
inductive Rule where
  /-- There are as many entries as parameters. -/
  | entryCount
  /-- There is an entry for a parameter. -/
  | given (parameter : Parameter)
  /-- The text of a parameter is a finite number. -/
  | number (parameter : Parameter)
  /-- The high ratio is a ratio. -/
  | highRange
  /-- The low ratio is a ratio. -/
  | lowRange
  /-- The low ratio is below the high one. -/
  | ratioOrder
  /-- The factor is at least one. -/
  | factorBound
  /-- The window is at least a millisecond. -/
  | windowLength

namespace Rule

/-- The rules in the order in which the fault of one hides those of the later ones. -/
def inOrder : List Rule :=
  [entryCount, given .highRatio, number .highRatio, given .lowRatio, number .lowRatio,
   given .factor, number .factor, highRange, lowRange, ratioOrder, factorBound, windowLength]

end Rule

/-- A parameter map has a text for a parameter that is a finite number. -/
def Holds (parameters : Dictionary String) (parameter : Parameter) (x : Float) : Prop :=
  ∃ text, parameters.get? parameter.key = some text ∧ Numeral.Denotes text x

/-- A rule is broken, and the fault says by which value. -/
inductive Breaks (parameters : Dictionary String) (window : Span) : Rule → PolicyFault → Prop
  | entryCount (h : parameters.size ≠ 3) :
    Breaks parameters window .entryCount (.wrongParameterCount 3 parameters.size)
  | given {parameter : Parameter} (h : parameters.get? parameter.key = none) :
    Breaks parameters window (.given parameter) (.missingParameter parameter)
  | number {parameter : Parameter} {text : String}
    (h : parameters.get? parameter.key = some text) (hnumber : ∀ x, ¬ Numeral.Denotes text x) :
    Breaks parameters window (.number parameter) (.invalidNumber parameter text)
  | highRange {high : Float} (h : Holds parameters .highRatio high)
    (hrange : ¬ (0 < high ∧ high ≤ 1)) :
    Breaks parameters window .highRange (.highRatioOutOfRange high)
  | lowRange {low : Float} (h : Holds parameters .lowRatio low) (hrange : ¬ (0 < low ∧ low ≤ 1)) :
    Breaks parameters window .lowRange (.lowRatioOutOfRange low)
  | ratioOrder {high low : Float} (hhigh : Holds parameters .highRatio high)
    (hlow : Holds parameters .lowRatio low) (horder : ¬ low < high) :
    Breaks parameters window .ratioOrder (.highNotAboveLow high low)
  | factorBound {factor : Float} (h : Holds parameters .factor factor) (hbound : ¬ 1 ≤ factor) :
    Breaks parameters window .factorBound (.factorBelowOne factor)
  | windowLength (h : window.nanos < 1000000) : Breaks parameters window .windowLength .zeroWindow

/-- Of rules in order, all before one are kept, and that one is broken. -/
inductive FirstFault (parameters : Dictionary String) (window : Span) :
    List Rule → PolicyFault → Prop
  | here {rule : Rule} {rules : List Rule} {fault : PolicyFault}
    (h : Breaks parameters window rule fault) :
    FirstFault parameters window (rule :: rules) fault
  | later {rule : Rule} {rules : List Rule} {fault : PolicyFault}
    (hkept : ∀ other, ¬ Breaks parameters window rule other)
    (h : FirstFault parameters window rules fault) :
    FirstFault parameters window (rule :: rules) fault

/-- A parameter map and a window describe a policy. -/
structure Describes (parameters : Dictionary String) (window : Span) (policy : Policy) : Prop where
  /-- The keys are those of the parameters. -/
  keys : ∀ key, parameters.get? key ≠ none ↔ ∃ parameter : Parameter, parameter.key = key
  holds : ∀ parameter, Holds parameters parameter (policy.tuning.value parameter)
  low_pos : 0 < policy.tuning.lowRatio
  low_lt_high : policy.tuning.lowRatio < policy.tuning.highRatio
  high_le_one : policy.tuning.highRatio ≤ 1
  one_le_factor : 1 ≤ policy.tuning.factor
  window_length : 1000000 ≤ window.nanos
  window_eq : policy.window = window

variable {parameters padded : Dictionary String} {window : Span} {parameter : Parameter}
  {rule : Rule} {rules rest : List Rule} {fault other : PolicyFault} {x y high low factor : Float}

section Order

/-- A map holds one number at most for a parameter. -/
theorem Holds.unique (hx : Holds parameters parameter x) (hy : Holds parameters parameter y) :
    x = y := by
  obtain ⟨text, hget, hdenotes⟩ := hx
  obtain ⟨text', hget', hdenotes'⟩ := hy
  obtain rfl : text = text' := Option.some_inj.mp (hget.symm.trans hget')
  exact hdenotes.unique hdenotes'

/-- The number that a parameter map has for a parameter is finite. -/
theorem Holds.isFinite (h : Holds parameters parameter x) : x.isFinite = true := by
  obtain ⟨text, -, hdenotes⟩ := h
  exact (Numeral.denotes_iff.mp hdenotes).2

/-- A rule is broken by one value at most. -/
theorem Breaks.unique (h : Breaks parameters window rule fault)
    (h' : Breaks parameters window rule other) : fault = other := by
  cases h with
  | entryCount h => cases h'; rfl
  | given h => cases h'; rfl
  | number h =>
    cases h' with
    | number h' => rw [Option.some_inj.mp (h.symm.trans h')]
  | highRange h =>
    cases h' with
    | highRange h' => rw [h.unique h']
  | lowRange h =>
    cases h' with
    | lowRange h' => rw [h.unique h']
  | ratioOrder hhigh hlow =>
    cases h' with
    | ratioOrder hhigh' hlow' => rw [hhigh.unique hhigh', hlow.unique hlow']
  | factorBound h =>
    cases h' with
    | factorBound h' => rw [h.unique h']
  | windowLength h => cases h'; rfl

/-- There is one first fault at most. -/
theorem FirstFault.unique (h : FirstFault parameters window rules fault)
    (h' : FirstFault parameters window rules other) : fault = other := by
  induction h with
  | here h =>
    cases h' with
    | here h' => exact h.unique h'
    | later hkept => exact absurd h (hkept _)
  | later hkept h ih =>
    cases h' with
    | here h' => exact absurd h' (hkept _)
    | later _ h' => exact ih h'

/-- No rule is broken. -/
def Keeps (parameters : Dictionary String) (window : Span) (rules : List Rule) : Prop :=
  ∀ rule ∈ rules, ∀ fault, ¬ Breaks parameters window rule fault

/-- Where no rule is broken there is no first fault. -/
theorem FirstFault.not_keeps (h : FirstFault parameters window rules fault) :
    ¬ Keeps parameters window rules := by
  intro hkeeps
  induction h with
  | here h => exact hkeeps _ List.mem_cons_self _ h
  | later _ h ih => exact ih fun rule hrule => hkeeps rule (List.mem_cons_of_mem _ hrule)

/-- The first fault of some rules stays the first one when more rules follow. -/
theorem FirstFault.append_right (h : FirstFault parameters window rules fault) :
    FirstFault parameters window (rules ++ rest) fault := by
  induction h with
  | here h => exact .here h
  | later hkept h ih => exact .later hkept ih

end Order

/-! ### What a check decides -/

section Decides

variable {α β : Type} {result : Except PolicyFault α}

/-- A result tells which fault of some rules is the first, or that none is broken. -/
def Decides (parameters : Dictionary String) (window : Span) (rules : List Rule) :
    Except PolicyFault α → Prop
  | .ok _ => Keeps parameters window rules
  | .error fault => FirstFault parameters window rules fault

/-- A rule that is kept may stand in front. -/
theorem Decides.cons (hkept : ∀ other, ¬ Breaks parameters window rule other)
    (h : Decides parameters window rules result) :
    Decides parameters window (rule :: rules) result := by
  cases result with
  | error fault => exact .later hkept h
  | ok a => exact List.forall_mem_cons.mpr ⟨hkept, h⟩

/-- Rules that are kept may stand in front. -/
theorem Decides.append_left (hkeeps : Keeps parameters window rules)
    (h : Decides parameters window rest result) :
    Decides parameters window (rules ++ rest) result := by
  induction rules with
  | nil => exact h
  | cons rule rules ih =>
    obtain ⟨hkept, hkeeps⟩ := List.forall_mem_cons.mp hkeeps
    exact .cons hkept (ih hkeeps)

/-- Checks in a row decide their rules in a row. -/
theorem Decides.bind {next : α → Except PolicyFault β}
    (h : Decides parameters window rules result)
    (hnext : ∀ a, result = .ok a → Decides parameters window rest (next a)) :
    Decides parameters window (rules ++ rest) (result >>= next) := by
  cases result with
  | error fault => exact FirstFault.append_right h
  | ok a => exact .append_left h (hnext a rfl)

/-- A test in front decides one rule more. -/
theorem decides_ite {c : Prop} [Decidable c]
    (hbroken : c → Breaks parameters window rule fault)
    (hkept : ¬ c → ∀ other, ¬ Breaks parameters window rule other)
    (hrest : ¬ c → Decides parameters window rules result) :
    Decides parameters window (rule :: rules) (if c then .error fault else result) := by
  split_ifs with hc
  · exact .here (hbroken hc)
  · exact .cons (hkept hc) (hrest hc)

end Decides

/-! ### The checks of a parameter map -/

section Checks

variable {text : String} {tuning : Tuning}

/-- A text that is a finite number is read as this number. -/
theorem readParameter_of_denotes (hget : parameters.get? parameter.key = some text)
    (h : Numeral.Denotes text x) : Tuning.readParameter parameters parameter = .ok x := by
  obtain ⟨hreal, hfinite⟩ := Numeral.denotes_iff.mp h
  simp only [Tuning.readParameter, hget, hreal, hfinite, if_true]

/-- A text that is no finite number is refused, and the fault shows the text. -/
theorem readParameter_of_not_denotes (hget : parameters.get? parameter.key = some text)
    (h : ∀ x, ¬ Numeral.Denotes text x) :
    Tuning.readParameter parameters parameter = .error (.invalidNumber parameter text) := by
  simp only [Tuning.readParameter, hget]
  cases hreal : Numeral.real? (Text.trim text.toList) with
  | none => rfl
  | some x => exact if_neg fun hfinite => h x (Numeral.denotes_iff.mpr ⟨hreal, hfinite⟩)

/-- Reading a parameter decides whether it is given and whether it is a number. -/
theorem decides_readParameter :
    Decides parameters window [.given parameter, .number parameter]
      (Tuning.readParameter parameters parameter) := by
  cases hget : parameters.get? parameter.key with
  | none =>
    rw [Tuning.readParameter, hget]
    exact .here (.given hget)
  | some text =>
    have hgiven (other : PolicyFault) : ¬ Breaks parameters window (.given parameter) other := by
      intro hother
      cases hother with
      | given hnone => cases hnone.symm.trans hget
    apply Decides.cons hgiven
    by_cases h : ∃ x, Numeral.Denotes text x
    · obtain ⟨x, hx⟩ := h
      rw [readParameter_of_denotes hget hx]
      refine List.forall_mem_singleton.mpr fun other hother => ?_
      cases hother with
      | number hget' hnumber =>
        obtain rfl := Option.some_inj.mp (hget'.symm.trans hget)
        exact hnumber x hx
    · have hnumber : ∀ x, ¬ Numeral.Denotes text x := not_exists.mp h
      rw [readParameter_of_not_denotes hget hnumber]
      exact .here (.number hget hnumber)

/-- What is read for a parameter is the number that the map holds for it. -/
theorem readParameter_eq_ok_iff :
    Tuning.readParameter parameters parameter = .ok x ↔ Holds parameters parameter x := by
  constructor
  · intro hread
    cases hget : parameters.get? parameter.key with
    | none => simp [Tuning.readParameter, hget] at hread
    | some text =>
      by_cases h : ∃ y, Numeral.Denotes text y
      · obtain ⟨y, hy⟩ := h
        rw [readParameter_of_denotes hget hy, Except.ok.injEq] at hread
        exact ⟨text, hget, hread ▸ hy⟩
      · rw [readParameter_of_not_denotes hget (not_exists.mp h)] at hread
        cases hread
  · rintro ⟨text, hget, hx⟩
    exact readParameter_of_denotes hget hx

/-- The check of the numbers decides the rules for them. -/
theorem decides_check (hhigh : Holds parameters .highRatio high)
    (hlow : Holds parameters .lowRatio low) (hfactor : Holds parameters .factor factor) :
    Decides parameters window [.highRange, .lowRange, .ratioOrder, .factorBound]
      (Tuning.check high low factor) := by
  -- What is read is finite, so it compares, and to be not at most another is to be above it.
  have horder : ¬ high ≤ low ↔ low < high := Binary64.not_le_iff
    (Binary64.isNaN_isInf_of_isFinite hhigh.isFinite).1
    (Binary64.isNaN_isInf_of_isFinite hlow.isFinite).1
  have hinf : factor.isInf = false := (Binary64.isNaN_isInf_of_isFinite hfactor.isFinite).2
  unfold Tuning.check
  refine decides_ite (.highRange hhigh) (fun hrange other hother => ?_) fun _ => ?_
  · cases hother with
    | highRange hhigh' hnot =>
      rw [hhigh'.unique hhigh] at hnot
      exact hrange hnot
  refine decides_ite (.lowRange hlow) (fun hrange other hother => ?_) fun _ => ?_
  · cases hother with
    | lowRange hlow' hnot =>
      rw [hlow'.unique hlow] at hnot
      exact hrange hnot
  refine decides_ite (fun hle => .ratioOrder hhigh hlow (mt horder.mpr (not_not_intro hle)))
    (fun hnle other hother => ?_) fun _ => ?_
  · cases hother with
    | ratioOrder hhigh' hlow' hnot =>
      rw [hhigh'.unique hhigh, hlow'.unique hlow] at hnot
      exact hnot (horder.mp hnle)
  refine decides_ite (fun hbound => .factorBound hfactor ?_) (fun hbound other hother => ?_)
    fun _ => ?_
  · exact hbound.resolve_right (by simp [hinf])
  · cases hother with
    | factorBound hfactor' hnot =>
      rw [hfactor'.unique hfactor] at hnot
      exact hbound (Or.inl hnot)
  · exact List.forall_mem_nil _

/-- There is a whole millisecond in a span from its length of one on. -/
theorem millis_eq_zero_iff : window.millis = 0 ↔ window.nanos < 1000000 := by
  rw [← UInt64.toNat_inj, Span.millis, toNat_saturate, UInt64.toNat_zero, Nat.min_eq_zero_iff,
    nanosPerMilli, Nat.div_eq_zero_iff]
  simp [wordLimit, wordCount]

/-- Joining the window decides the rule for it. -/
theorem decides_ofTuning :
    Decides parameters window [.windowLength] (ofTuning tuning window) := by
  unfold ofTuning
  split_ifs with hwindow
  · exact .here (.windowLength (millis_eq_zero_iff.mp hwindow))
  · refine List.forall_mem_singleton.mpr fun other hother => ?_
    cases hother with
    | windowLength h => exact hwindow (millis_eq_zero_iff.mpr h)

/-- The rules for a map of parameters are those of its size, its texts and its numbers. -/
theorem decides_ofParameters :
    Decides parameters window
      [.entryCount, .given .highRatio, .number .highRatio, .given .lowRatio, .number .lowRatio,
       .given .factor, .number .factor, .highRange, .lowRange, .ratioOrder, .factorBound]
      (Tuning.ofParameters parameters) := by
  unfold Tuning.ofParameters
  refine decides_ite .entryCount (fun hcount other hother => ?_) fun _ => ?_
  · cases hother with
    | entryCount h => exact hcount h
  refine decides_readParameter.bind fun high hhigh => ?_
  refine decides_readParameter.bind fun low hlow => ?_
  refine decides_readParameter.bind fun factor hfactor => ?_
  exact decides_check (readParameter_eq_ok_iff.mp hhigh) (readParameter_eq_ok_iff.mp hlow)
    (readParameter_eq_ok_iff.mp hfactor)

/-- The rules in their order decide whether a policy is made of the parameters. -/
theorem decides_inOrder :
    Decides parameters window Rule.inOrder (ofParameters parameters window) :=
  decides_ofParameters.bind fun _ _ => decides_ofTuning

/-- There are three parameters. -/
theorem exists_key_eq_iff {key : String} :
    (∃ parameter : Parameter, parameter.key = key) ↔
      key ∈ [Parameter.highRatio, .lowRatio, .factor].map Parameter.key := by
  rw [List.mem_map]
  refine exists_congr fun parameter => (and_iff_right ?_).symm
  cases parameter <;> simp

/-- A map with three entries that holds something for each parameter holds nothing else. -/
theorem size_eq_iff (h : ∀ parameter : Parameter, parameters.get? parameter.key ≠ none) :
    parameters.size = Tuning.parameterCount ↔
      ∀ key, parameters.get? key ≠ none ↔ ∃ parameter : Parameter, parameter.key = key := by
  have hnodup : ([Parameter.highRatio, .lowRatio, .factor].map Parameter.key).Nodup := by decide
  have hget (key : String) (hkey : ∃ parameter : Parameter, parameter.key = key) :
      parameters.get? key ≠ none := by
    obtain ⟨parameter, rfl⟩ := hkey
    exact h parameter
  have hsize := Dictionary.size_eq_length_iff hnodup fun key hkey =>
    hget key (exists_key_eq_iff.mpr hkey)
  refine hsize.trans (forall_congr' fun key => ?_)
  rw [← exists_key_eq_iff]
  exact ⟨fun hkey => ⟨hkey, hget key⟩, Iff.mp⟩

/-- What the check accepts are the numbers that it was given. -/
theorem check_eq_ok_iff :
    Tuning.check high low factor = .ok tuning ↔
      tuning = ⟨high, low, factor⟩ ∧ tuning.Validated := by
  constructor
  · intro h
    refine ⟨?_, Tuning.validated_of_check h⟩
    unfold Tuning.check at h
    split_ifs at h
    exact (Except.ok.inj h).symm
  · rintro ⟨rfl, hvalidated⟩
    exact hvalidated.check_eq

/-- A policy is made of parameters and a window that describe it. -/
theorem ofParameters_eq_ok_iff {policy : Policy} :
    ofParameters parameters window = .ok policy ↔ Describes parameters window policy := by
  have hgiven {value : Parameter → Float}
      (h : ∀ parameter, Holds parameters parameter (value parameter)) (parameter : Parameter) :
      parameters.get? parameter.key ≠ none := by
    obtain ⟨text, hget, -⟩ := h parameter
    simp [hget]
  constructor
  · intro h
    obtain ⟨tuning, htuning, hwindow⟩ := bind_eq_ok.mp h
    unfold Tuning.ofParameters at htuning
    split_ifs at htuning with hsize
    obtain ⟨high, hhigh, htuning⟩ := bind_eq_ok.mp htuning
    obtain ⟨low, hlow, htuning⟩ := bind_eq_ok.mp htuning
    obtain ⟨factor, hfactor, hcheck⟩ := bind_eq_ok.mp htuning
    obtain ⟨rfl, hvalidated⟩ := check_eq_ok_iff.mp hcheck
    have hholds (parameter : Parameter) :
        Holds parameters parameter (Tuning.value ⟨high, low, factor⟩ parameter) := by
      cases parameter with
      | highRatio => exact readParameter_eq_ok_iff.mp hhigh
      | lowRatio => exact readParameter_eq_ok_iff.mp hlow
      | factor => exact readParameter_eq_ok_iff.mp hfactor
    unfold ofTuning at hwindow
    split_ifs at hwindow with hlength
    obtain rfl := Except.ok.inj hwindow
    exact {
      keys := (size_eq_iff (hgiven hholds)).mp (not_not.mp hsize)
      holds := hholds
      low_pos := hvalidated.low_pos
      low_lt_high := hvalidated.low_lt_high
      high_le_one := hvalidated.high_le_one
      one_le_factor := hvalidated.one_le_factor
      window_length := not_lt.mp (mt millis_eq_zero_iff.mpr hlength)
      window_eq := rfl }
  · intro h
    have hread (parameter : Parameter) :
        Tuning.readParameter parameters parameter = .ok (policy.tuning.value parameter) :=
      readParameter_eq_ok_iff.mpr (h.holds parameter)
    have hvalidated : policy.tuning.Validated :=
      ⟨h.low_pos, h.low_lt_high, h.high_le_one, (h.holds .factor).isFinite, h.one_le_factor⟩
    have htuning : Tuning.ofParameters parameters = .ok policy.tuning := by
      rw [Tuning.ofParameters, if_neg (not_not_intro ((size_eq_iff (hgiven h.holds)).mpr h.keys)),
        hread, hread, hread]
      exact hvalidated.check_eq
    have hlength : window.millis ≠ 0 := mt millis_eq_zero_iff.mp (not_lt.mpr h.window_length)
    obtain ⟨tuning, _, _⟩ := policy
    obtain rfl := h.window_eq
    exact bind_eq_ok.mpr ⟨tuning, htuning, dif_neg hlength⟩

/-- A policy is refused with the fault of the first rule that is broken. -/
theorem ofParameters_eq_error_iff :
    ofParameters parameters window = .error fault ↔
      FirstFault parameters window Rule.inOrder fault := by
  have hdecides : Decides parameters window Rule.inOrder (ofParameters parameters window) :=
    decides_inOrder
  cases hresult : ofParameters parameters window with
  | ok policy =>
    rw [hresult] at hdecides
    exact ⟨nofun, fun h => absurd hdecides h.not_keeps⟩
  | error first =>
    rw [hresult] at hdecides
    rw [Except.error.injEq]
    refine ⟨?_, hdecides.unique⟩
    rintro rfl
    exact hdecides

end Checks

/-! ### Blanks around the texts -/

section Blanks

/-- A text with more in front of it and behind it. -/
def surround (before after : List Char) (text : String) : String :=
  String.ofList (before ++ text.toList ++ after)

/-- A map holds the texts of another one with blanks around them, for each key its own. -/
structure Surrounds (before after : String → List Char) (parameters padded : Dictionary String) :
    Prop where
  blank_before : ∀ key, ∀ c ∈ before key, Text.isBlank c = true
  blank_after : ∀ key, ∀ c ∈ after key, Text.isBlank c = true
  get? : ∀ key, padded.get? key = (parameters.get? key).map (surround (before key) (after key))

variable {before after : String → List Char} {f : Parameter → String → String}

/-- What is read for a parameter does not depend on the blanks around it. -/
theorem readParameter_surround (h : Surrounds before after parameters padded) :
    Tuning.readParameter padded parameter =
      (Tuning.readParameter parameters parameter).mapError
        (.mapText fun parameter => surround (before parameter.key) (after parameter.key)) := by
  have hget := h.get? parameter.key
  cases htext : parameters.get? parameter.key with
  | none =>
    rw [htext, Option.map_none] at hget
    rw [Tuning.readParameter, Tuning.readParameter, hget, htext]
    rfl
  | some text =>
    rw [htext, Option.map_some] at hget
    have htrim : Text.trim (surround (before parameter.key) (after parameter.key) text).toList =
        Text.trim text.toList := by
      rw [surround, String.toList_ofList]
      exact Text.trim_append (h.blank_before _) (h.blank_after _)
    simp only [Tuning.readParameter, hget, htext, htrim]
    cases Numeral.real? (Text.trim text.toList) with
    | none => rfl
    | some x => cases hfinite : x.isFinite <;> simp [hfinite, Except.mapError, PolicyFault.mapText]

/-- There is no text in the faults of numbers. -/
theorem mapError_check :
    (Tuning.check high low factor).mapError (.mapText f) = Tuning.check high low factor := by
  unfold Tuning.check
  split_ifs <;> rfl

/-- There is no text in the faults of a tuning and its window. -/
theorem mapError_ofTuning {tuning : Tuning} :
    (ofTuning tuning window).mapError (.mapText f) = ofTuning tuning window := by
  unfold ofTuning
  split_ifs <;> rfl

/-- To change the fault of a computation is to change the faults of its two parts. -/
theorem mapError_bind {ε ε' α β : Type} {x : Except ε α} {next : α → Except ε β} {g : ε → ε'} :
    (x >>= next).mapError g = x.mapError g >>= fun a => (next a).mapError g := by
  cases x <;> rfl

/-- Blanks around the texts show only in the text of a fault. -/
theorem ofParameters_surround (h : Surrounds before after parameters padded) :
    ofParameters padded window =
      (ofParameters parameters window).mapError
        (.mapText fun parameter => surround (before parameter.key) (after parameter.key)) := by
  have hsize : padded.size = parameters.size :=
    Dictionary.size_eq_of_forall fun key => by rw [h.get? key, Option.map_eq_none_iff]
  simp only [ofParameters, mapError_bind, mapError_ofTuning]
  congr 1
  unfold Tuning.ofParameters
  rw [hsize]
  split_ifs with hcount
  · rfl
  · simp only [mapError_bind, mapError_check, readParameter_surround h]

end Blanks

/-- **What becomes of a parameter map.** It describes the policy that is made of it, whose numbers
are those that its texts are. If there is none, the fault is that of the first rule that the map
and the window break, with the value that breaks it. Blanks put around the texts change no more
than the text in a fault. -/
theorem ofParameters_rules (parameters : Dictionary String) (window : Span) :
    (∀ policy, ofParameters parameters window = .ok policy ↔
      Describes parameters window policy) ∧
    (∀ fault, ofParameters parameters window = .error fault ↔
      FirstFault parameters window Rule.inOrder fault) ∧
    ∀ (before after : String → List Char) (padded : Dictionary String),
      Surrounds before after parameters padded →
      ofParameters padded window =
        (ofParameters parameters window).mapError
          (.mapText fun parameter => surround (before parameter.key) (after parameter.key)) :=
  ⟨fun _ => ofParameters_eq_ok_iff, fun _ => ofParameters_eq_error_iff,
    fun _ _ _ => ofParameters_surround⟩

/-- A text that names no finite number is refused as it stands, blanks around it included. -/
theorem ofParameters_rules_padded :
    let texts (low : String) : Dictionary String :=
      .ofList [("high_ratio", "0.9"), ("low_ratio", low), ("factor", "10")]
    let window := Span.ofMillis 1000
    let before (key : String) := if key = "low_ratio" then [' '] else []
    let after (key : String) := if key = "low_ratio" then ['\u3000'] else []
    Surrounds before after (texts "nan") (texts " nan\u3000") ∧
      FirstFault (texts "nan") window Rule.inOrder (.invalidNumber .lowRatio "nan") ∧
      ofParameters (texts " nan\u3000") window =
        .error (.invalidNumber .lowRatio " nan\u3000") := by
  intro texts window before after
  have hblank : ∀ key, (∀ c ∈ before key, Text.isBlank c = true) ∧
      ∀ c ∈ after key, Text.isBlank c = true := by
    intro key
    by_cases hkey : key = "low_ratio"
    · simp only [before, after, if_pos hkey, List.forall_mem_singleton]
      decide
    · simp [before, after, hkey]
  have hget (low key : String) : (texts low).get? key =
      if key = "factor" then some "10" else if key = "low_ratio" then some low
      else if key = "high_ratio" then some "0.9" else none := by
    simp only [texts, Dictionary.ofList, List.foldl, Dictionary.get?_insert]
    rfl
  have hsurrounds : Surrounds before after (texts "nan") (texts " nan\u3000") := by
    refine ⟨fun key => (hblank key).1, fun key => (hblank key).2, fun key => ?_⟩
    rw [hget, hget]
    by_cases hlow : key = "low_ratio"
    · subst hlow
      rfl
    · simp only [hlow, before, after, if_false]
      split_ifs <;> rfl
  obtain ⟨-, herror, hblanks⟩ := ofParameters_rules (texts "nan") window
  have hrefused : ofParameters (texts "nan") window = .error (.invalidNumber .lowRatio "nan") := rfl
  refine ⟨hsurrounds, (herror _).mp hrefused, ?_⟩
  rw [hblanks before after _ hsurrounds, hrefused]
  rfl

end Policy

end FlowControl
