import FlowControl.Options.CommandLine

/-!
# Drafts, option by option

A draft holds a value or none for each option, and to give an option a value changes what it holds
for this option and for no other one. The settings of a draft are determined by what it holds.
-/

namespace FlowControl

namespace Choice

/-- The values of an option. -/
@[reducible] def Carrier : Choice → Type
  | highRatio | lowRatio | factor | offeredRate => Float
  | windowMs | queueDepth | durationSecs => UInt64
  | peerCapacities => List Float

/-- The value that a text is for an option, if it is one. Capacities are what stands between
commas. -/
def read? : (choice : Choice) → String → Option choice.Carrier
  | highRatio, text => Numeral.real? text.toList
  | lowRatio, text => Numeral.real? text.toList
  | factor, text => Numeral.real? text.toList
  | windowMs, text => Numeral.word? text.toList
  | offeredRate, text => Numeral.real? text.toList
  | peerCapacities, text => (text.toList.splitOn ',').mapM Numeral.real?
  | queueDepth, text => Numeral.word? text.toList
  | durationSecs, text => Numeral.word? text.toList

/-- A text is a value of an option. -/
def Reads (choice : Choice) (text : String) : Prop := (choice.read? text).isSome = true

instance (choice : Choice) (text : String) : Decidable (choice.Reads text) := by
  unfold Reads
  infer_instance

/-- The value of an option that is given once more. -/
def add : (choice : Choice) → Option choice.Carrier → choice.Carrier → choice.Carrier
  | peerCapacities, given, capacities => given.getD [] ++ capacities
  | _, _, value => value

end Choice

/-! ### Settings -/

namespace Settings

/-- The value of an option in settings. -/
def value (settings : Settings) : (choice : Choice) → choice.Carrier
  | .highRatio => settings.policy.highRatio
  | .lowRatio => settings.policy.lowRatio
  | .factor => settings.policy.factor
  | .windowMs => settings.policy.windowMs
  | .offeredRate => settings.load.offeredRate
  | .peerCapacities => settings.load.capacities
  | .queueDepth => settings.load.queueDepth
  | .durationSecs => settings.load.durationSecs

/-- Whether a switch is on in settings. -/
def flag (settings : Settings) : Switch → Bool
  | .logJson => settings.logJson
  | .reportJson => settings.reportJson

/-- Settings have no more to them than their options. -/
theorem ext_value {a b : Settings} (hvalue : ∀ choice, a.value choice = b.value choice)
    (hflag : ∀ switch, a.flag switch = b.flag switch) : a = b := by
  obtain ⟨⟨_, _, _, _⟩, ⟨_, _, _, _⟩, _, _⟩ := a
  obtain ⟨⟨_, _, _, _⟩, ⟨_, _, _, _⟩, _, _⟩ := b
  congr
  · exact hvalue .highRatio
  · exact hvalue .lowRatio
  · exact hvalue .factor
  · exact hvalue .windowMs
  · exact hvalue .offeredRate
  · exact hvalue .peerCapacities
  · exact hvalue .queueDepth
  · exact hvalue .durationSecs
  · exact hflag .logJson
  · exact hflag .reportJson

end Settings

/-! ### Drafts -/

/-- What the capacities are split into is what the commas separate. -/
theorem splitCommas_eq (cs : List Char) : splitCommas cs = cs.splitOn ',' := by
  induction cs with
  | nil => rfl
  | cons c cs ih =>
    obtain ⟨piece, pieces, hpieces⟩ :=
      List.exists_cons_of_ne_nil (List.splitOnP_ne_nil (· == ',') cs)
    have hrest : cs.splitOn ',' = piece :: pieces := hpieces
    rw [splitCommas, ih, hrest, List.splitOn, List.splitOnP_cons_eq_if_modifyHead, hpieces]
    simp only [beq_iff_eq, List.modifyHead_cons]

namespace Draft

variable {draft : Draft} {choice other : Choice} {switch another : Switch} {b : Bool}

/-- The value that a draft holds for an option. -/
def value? (draft : Draft) : (choice : Choice) → Option choice.Carrier
  | .highRatio => draft.highRatio
  | .lowRatio => draft.lowRatio
  | .factor => draft.factor
  | .windowMs => draft.windowMs
  | .offeredRate => draft.offeredRate
  | .peerCapacities => draft.peerCapacities
  | .queueDepth => draft.queueDepth
  | .durationSecs => draft.durationSecs

/-- What a draft holds for a switch. -/
def flag? (draft : Draft) : Switch → Option Bool
  | .logJson => draft.logJson
  | .reportJson => draft.reportJson

/-- The draft with another value for an option. -/
def set (draft : Draft) : (choice : Choice) → choice.Carrier → Draft
  | .highRatio, x => { draft with highRatio := some x }
  | .lowRatio, x => { draft with lowRatio := some x }
  | .factor, x => { draft with factor := some x }
  | .windowMs, n => { draft with windowMs := some n }
  | .offeredRate, x => { draft with offeredRate := some x }
  | .peerCapacities, xs => { draft with peerCapacities := some xs }
  | .queueDepth, n => { draft with queueDepth := some n }
  | .durationSecs, n => { draft with durationSecs := some n }

/-- The empty draft holds no value for any option. -/
@[simp] theorem value?_empty (choice : Choice) : empty.value? choice = none := by
  cases choice <;> rfl

/-- The empty draft holds nothing for any switch. -/
@[simp] theorem flag?_empty (switch : Switch) : empty.flag? switch = none := by
  cases switch <;> rfl

/-- An option has been given exactly if the draft holds a value for it. -/
theorem has_eq (draft : Draft) (choice : Choice) :
    draft.has choice = (draft.value? choice).isSome := by
  cases choice <;> rfl

/-- A switch has been given exactly if the draft holds a flag for it. -/
theorem hasSwitch_eq (draft : Draft) (switch : Switch) :
    draft.hasSwitch switch = (draft.flag? switch).isSome := by
  cases switch <;> rfl

/-- An option that was given a value has this value. -/
@[simp] theorem value?_set_self (value : choice.Carrier) :
    (draft.set choice value).value? choice = some value := by
  cases choice <;> rfl

/-- To give one option a value changes nothing for another one. -/
@[simp] theorem value?_set_of_ne (h : other ≠ choice) (value : choice.Carrier) :
    (draft.set choice value).value? other = draft.value? other := by
  cases choice <;> cases other <;> first | rfl | exact absurd rfl h

/-- To give an option a value changes no switch. -/
@[simp] theorem flag?_set (value : choice.Carrier) :
    (draft.set choice value).flag? switch = draft.flag? switch := by
  cases choice <;> cases switch <;> rfl

/-- To give a switch changes no option. -/
@[simp] theorem value?_putSwitch :
    (draft.putSwitch switch b).value? choice = draft.value? choice := by
  cases switch <;> cases choice <;> rfl

/-- A switch that was given is as it was given. -/
@[simp] theorem flag?_putSwitch_self : (draft.putSwitch switch b).flag? switch = some b := by
  cases switch <;> rfl

/-- To give one switch changes nothing for another one. -/
@[simp] theorem flag?_putSwitch_of_ne (h : another ≠ switch) :
    (draft.putSwitch switch b).flag? another = draft.flag? another := by
  cases switch <;> cases another <;> first | rfl | exact absurd rfl h

/-- A text gives an option the value that it is, besides the capacities that are there. -/
theorem put?_eq (draft : Draft) (choice : Choice) (text : String) :
    draft.put? choice text = (choice.read? text).map fun value =>
      draft.set choice (choice.add (draft.value? choice) value) := by
  cases choice with
  | peerCapacities => rw [put?, realList?, splitCommas_eq]; rfl
  | _ => rfl

/-- An option that a draft holds nothing for has its standard value. -/
theorem value_settings (draft : Draft) (choice : Choice) :
    draft.settings.value choice = (draft.value? choice).getD (Settings.standard.value choice) := by
  cases choice <;> rfl

/-- A switch that a draft holds nothing for is as it is in the standard settings. -/
theorem flag_settings (draft : Draft) (switch : Switch) :
    draft.settings.flag switch = (draft.flag? switch).getD (Settings.standard.flag switch) := by
  cases switch <;> rfl

end Draft

end FlowControl
