import FlowControl.Proofs.Json.Pretty
import FlowControl.Records

/-!
# What the text of a report tells

Two reports have one text only if they show the same. The one thing that a text does not tell is
which number without digits a field holds, and, where there need not be a number, whether there is
one without digits or none at all.
-/

namespace FlowControl

open Json (Kind Row Schema)

/-- Two numbers are the same, or neither has digits. -/
def SameNumber (x y : Float) : Prop := x = y ∨ x.isFinite = false ∧ y.isFinite = false

instance (x y : Float) : Decidable (SameNumber x y) := by unfold SameNumber; infer_instance

/-- Two rates are the same, where one without digits counts as none. -/
def SameRate (x y : Option Float) : Prop := x.filter Float.isFinite = y.filter Float.isFinite

namespace Json

/-- A rate without digits is written as none. -/
theorem canonical_toJson_optionalReal (rate : Option Float) :
    (Kind.optionalReal.toJson rate).canonical = (rate.filter Float.isFinite).elim .null .real := by
  cases rate with
  | none => rfl
  | some x =>
    rw [Kind.toJson, canonical, Option.filter_some]
    split_ifs <;> rfl

/-- Two rates that need not be there are written alike exactly if they are the same, one without
digits being none. -/
theorem alike_optionalReal_iff {x y : Option Float} :
    (Kind.optionalReal.toJson x).Alike (Kind.optionalReal.toJson y) ↔ SameRate x y := by
  rw [Alike, canonical_toJson_optionalReal, canonical_toJson_optionalReal, SameRate]
  cases x.filter Float.isFinite <;> cases y.filter Float.isFinite <;> simp

/-- Two numbers are written alike exactly if they are the same or neither has digits. -/
theorem alike_real_iff {x y : Float} : (Json.real x).Alike (.real y) ↔ SameNumber x y := by
  refine (alike_optionalReal_iff (x := some x) (y := some y)).trans ?_
  rw [SameRate, SameNumber, Option.filter_some, Option.filter_some]
  by_cases heq : x = y
  · simp [heq]
  · cases x.isFinite <;> cases y.isFinite <;> simp [heq]

/-- Two lists are written alike exactly if their items are the same one by one, if that is so for
the items. -/
theorem alike_list_map_iff {α : Type} {write : α → Json} {same : α → α → Prop}
    (h : ∀ a b, (write a).Alike (write b) ↔ same a b) {as bs : List α} :
    (Json.list (as.map write)).Alike (.list (bs.map write)) ↔ List.Forall₂ same as bs := by
  rw [alike_list_iff, List.forall₂_map_left_iff, List.forall₂_map_right_iff]
  simp only [h]

/-- Two values of a kind are the same, but for numbers that have no digits. -/
def Kind.Alike : (kind : Kind) → kind.Carrier → kind.Carrier → Prop
  | real, x, y => SameNumber x y
  | optionalReal, x, y => SameRate x y
  | reals, xs, ys => List.Forall₂ SameNumber xs ys
  | word _, x, y => x = y
  | flag, x, y => x = y
  | text, x, y => x = y
  | stamp, x, y => x = y

/-- Two values of a kind are written alike exactly if they are the same to that kind. -/
theorem Kind.alike_toJson_iff (kind : Kind) {x y : kind.Carrier} :
    (kind.toJson x).Alike (kind.toJson y) ↔ kind.Alike x y := by
  cases kind with
  | real => exact alike_real_iff
  | optionalReal => exact alike_optionalReal_iff
  | reals => exact alike_list_map_iff fun _ _ => alike_real_iff
  | word _ => exact ⟨fun h => Json.word.inj h, congrArg Json.word⟩
  | flag => exact ⟨fun h => Json.flag.inj h, congrArg Json.flag⟩
  | text => exact ⟨fun h => Json.text.inj h, congrArg Json.text⟩
  | stamp =>
    refine ⟨fun h => ?_, congrArg fun time : Timestamp => Json.text time.render⟩
    have hparse := Timestamp.parse_render x
    rw [Json.text.inj h, Timestamp.parse_render, Except.ok.injEq] at hparse
    exact hparse.symm

/-- Two records of a type are the same, but for numbers that have no digits. -/
def Row.Alike : (fields : List Field) → Row fields → Row fields → Prop
  | [], (), () => True
  | field :: fields, (x, row), (y, row') => field.kind.Alike x y ∧ Alike fields row row'

/-- Two rows are written alike exactly if they are the same field by field. -/
theorem forall₂_rowFields_iff (fields : List Field) {row row' : Row fields} :
    List.Forall₂ AlikeField (Schema.rowFields fields row) (Schema.rowFields fields row') ↔
      Row.Alike fields row row' := by
  induction fields with
  | nil => exact iff_of_true .nil trivial
  | cons field fields ih =>
    obtain ⟨x, row⟩ := row
    obtain ⟨y, row'⟩ := row'
    rw [Schema.rowFields, Schema.rowFields, List.forall₂_cons, ih]
    exact and_congr ((and_iff_right rfl).trans field.kind.alike_toJson_iff) Iff.rfl

/-- Records of one type are written alike if their values are. -/
theorem Schema.alike_toJson_iff (schema : Schema) {row row' : Row schema.fields} :
    (schema.toJson row).Alike (schema.toJson row') ↔ Row.Alike schema.fields row row' :=
  alike_record_iff.trans (forall₂_rowFields_iff schema.fields)

end Json

/-! ### The records of a report -/

/-- Two choices of a policy show the same. -/
structure PolicySettings.Alike (a b : PolicySettings) : Prop where
  highRatio : SameNumber a.highRatio b.highRatio
  lowRatio : SameNumber a.lowRatio b.lowRatio
  factor : SameNumber a.factor b.factor
  windowMs : a.windowMs = b.windowMs

/-- Two policy settings are written alike exactly if they show the same. -/
theorem PolicySettings.alike_toJson_iff {a b : PolicySettings} :
    a.toJson.Alike b.toJson ↔ a.Alike b := by
  rw [toJson, toJson, schema.alike_toJson_iff]
  exact ⟨fun ⟨high, low, factor, window, _⟩ => ⟨high, low, factor, window⟩,
    fun ⟨high, low, factor, window⟩ => ⟨high, low, factor, window, trivial⟩⟩

/-- Two samples show the same. -/
structure Sample.Alike (a b : Sample) : Prop where
  elapsedMs : a.elapsedMs = b.elapsedMs
  peer : a.peer = b.peer
  rate : SameRate a.rate b.rate
  overloaded : a.overloaded = b.overloaded

/-- Two samples are written alike exactly if they show the same. -/
theorem Sample.alike_toJson_iff {a b : Sample} : a.toJson.Alike b.toJson ↔ a.Alike b := by
  rw [toJson, toJson, schema.alike_toJson_iff]
  exact ⟨fun ⟨elapsed, peer, rate, overloaded, _⟩ => ⟨elapsed, peer, rate, overloaded⟩,
    fun ⟨elapsed, peer, rate, overloaded⟩ => ⟨elapsed, peer, rate, overloaded, trivial⟩⟩

/-- Two summaries show the same. -/
structure Summary.Alike (a b : Summary) : Prop where
  peer : a.peer = b.peer
  capacity : SameNumber a.capacity b.capacity
  queued : a.queued = b.queued
  dropped : a.dropped = b.dropped
  acknowledged : a.acknowledged = b.acknowledged
  finalRate : SameRate a.finalRate b.finalRate
  overloadedWindows : a.overloadedWindows = b.overloadedWindows

/-- Two summaries are written alike exactly if they show the same. -/
theorem Summary.alike_toJson_iff {a b : Summary} : a.toJson.Alike b.toJson ↔ a.Alike b := by
  rw [toJson, toJson, schema.alike_toJson_iff]
  exact ⟨fun ⟨peer, capacity, queued, dropped, acknowledged, rate, windows, _⟩ =>
      ⟨peer, capacity, queued, dropped, acknowledged, rate, windows⟩,
    fun ⟨peer, capacity, queued, dropped, acknowledged, rate, windows⟩ =>
      ⟨peer, capacity, queued, dropped, acknowledged, rate, windows, trivial⟩⟩

/-- Two reports show the same, sample by sample and peer by peer. -/
structure Report.Alike (a b : Report) : Prop where
  policy : a.policy.Alike b.policy
  samples : List.Forall₂ Sample.Alike a.samples b.samples
  peers : List.Forall₂ Summary.Alike a.peers b.peers

/-- **The text of a report tells what the report shows.** Reports that have one text are the same in
all counts, names and truth values and in the lengths and the order of their lists, and each number
of one is that of the other bit for bit, unless neither has digits. -/
theorem Report.render_eq_iff (a b : Report) : a.render = b.render ↔ a.Alike b := by
  rw [render, render, Json.toPretty_eq_iff, toJson, toJson, Json.alike_record_iff]
  simp only [List.forall₂_cons, List.forall₂_nil_left_iff, Json.AlikeField, true_and, and_true,
    PolicySettings.alike_toJson_iff, Json.alike_list_map_iff fun _ _ => Sample.alike_toJson_iff,
    Json.alike_list_map_iff fun _ _ => Summary.alike_toJson_iff]
  exact ⟨fun ⟨policy, samples, peers⟩ => ⟨policy, samples, peers⟩,
    fun ⟨policy, samples, peers⟩ => ⟨policy, samples, peers⟩⟩

/-- The two zeros are different numbers. -/
example : ¬ SameNumber 0 (-0) := by decide +kernel

end FlowControl
