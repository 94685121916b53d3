import FlowControl.Proofs.Options.Draft
import Mathlib.Data.List.Induction
import Mathlib.Tactic.SplitIfs

/-!
# Options on the command line

A command line is a row of options, each of which takes one or two arguments. The arguments are read
one by one, and a value that is an argument of its own is looked at only when the next option comes.
So what has been read is told by the options so far, once the value that was put aside has been
looked at.
-/

namespace FlowControl

/-- How the value of an option stands on the command line. -/
inductive Spelling where
  /-- In one argument with the option, after an equals sign. -/
  | attached
  /-- In an argument of its own. -/
  | separate
  deriving DecidableEq, Repr

/-- An option on the command line. -/
inductive Occurrence where
  /-- An option with a value. -/
  | valued (spelling : Spelling) (choice : Choice) (text : String)
  /-- A switch. -/
  | switch (switch : Switch)
  deriving DecidableEq, Repr

namespace Occurrence

/-- The arguments of an option. -/
def arguments : Occurrence → List String
  | valued .attached choice text => ["--" ++ choice.name ++ "=" ++ text]
  | valued .separate choice text => ["--" ++ choice.name, text]
  | switch given => ["--" ++ given.name]

/-- What the name of an option stands for. -/
def keyword : Occurrence → Keyword
  | valued _ given _ => .choice given
  | switch given => .switch given

/-- The text that is given for an option. -/
def text? (choice : Choice) : Occurrence → Option String
  | valued _ given text => if given = choice then some text else none
  | switch _ => none

/-- The value of an option can be read, and it does not start with a dash if it is an argument of
its own. -/
def WellFormed : Occurrence → Prop
  | valued .attached choice text => choice.Reads text
  | valued .separate choice text => choice.Reads text ∧ text.toList.head? ≠ some '-'
  | switch _ => True

instance : (occurrence : Occurrence) → Decidable occurrence.WellFormed
  | valued .attached choice text => inferInstanceAs (Decidable (choice.Reads text))
  | valued .separate choice text =>
    inferInstanceAs (Decidable (choice.Reads text ∧ text.toList.head? ≠ some '-'))
  | switch _ => isTrue trivial

/-- The texts that are given for an option, in their order. -/
def texts (occurrences : List Occurrence) (choice : Choice) : List String :=
  occurrences.filterMap (·.text? choice)

/-- No option is given twice, except for capacities. -/
def Distinct (occurrences : List Occurrence) : Prop :=
  occurrences.Pairwise fun a b => a.keyword = b.keyword → a.keyword = .choice .peerCapacities

instance (occurrences : List Occurrence) : Decidable (Distinct occurrences) := by
  unfold Distinct
  infer_instance

variable {occurrences : List Occurrence} {occurrence : Occurrence}
  {choice : Choice} {spelling : Spelling} {text : String}

/-- The texts for an option stand in the order of the command line. -/
theorem texts_append (front back : List Occurrence) (choice : Choice) :
    texts (front ++ back) choice = texts front choice ++ texts back choice :=
  List.filterMap_append

/-- An option that is given once has one text. -/
theorem texts_valued_self (spelling : Spelling) (choice : Choice) (text : String) :
    texts [.valued spelling choice text] choice = [text] := by
  simp [texts, text?]

/-- To give one option a text gives none to another one. -/
theorem texts_valued_of_ne {other : Choice} (h : other ≠ choice) :
    texts [.valued spelling choice text] other = [] := by
  simp [texts, text?, h.symm]

/-- A text is given with the name of its option. -/
theorem keyword_of_text? (h : occurrence.text? choice = some text) :
    occurrence.keyword = .choice choice := by
  cases occurrence with
  | valued spelling given text =>
    rw [text?] at h
    split_ifs at h with heq
    exact congrArg Keyword.choice heq
  | switch given => cases h

/-- A switch gives no option a text. -/
theorem texts_switch (switch : Switch) (choice : Choice) : texts [.switch switch] choice = [] := rfl

end Occurrence

open Occurrence

/-! ### What the texts of an option say -/

namespace Choice

/-- The value that texts on the command line give an option: that of a single one, or the capacities
between the commas of all. -/
def readAll? : (choice : Choice) → List String → Option choice.Carrier
  | peerCapacities, text :: texts =>
    ((text :: texts).flatMap fun text => text.toList.splitOn ',').mapM Numeral.real?
  | choice, [text] => choice.read? text
  | _, _ => none

/-- Without texts an option has no value. -/
@[simp] theorem readAll?_nil (choice : Choice) : choice.readAll? [] = none := by
  cases choice <;> rfl

/-- One text has the value that is read from it. -/
theorem readAll?_singleton (choice : Choice) (text : String) :
    choice.readAll? [text] = choice.read? text := by
  cases choice with
  | peerCapacities => rw [readAll?, List.flatMap_singleton]; rfl
  | _ => rfl

/-- One more text adds to the value of the texts before it. -/
theorem readAll?_concat {choice : Choice} {texts : List String} {text : String}
    {value : choice.Carrier} (hagain : choice = .peerCapacities ∨ texts = [])
    (hgiven : texts ≠ [] → (choice.readAll? texts).isSome = true)
    (hread : choice.read? text = some value) :
    choice.readAll? (texts ++ [text]) = some (choice.add (choice.readAll? texts) value) := by
  by_cases hfirst : texts = []
  · subst hfirst
    rw [List.nil_append, readAll?_singleton, hread, readAll?_nil]
    cases choice <;> rfl
  · obtain rfl := hagain.resolve_right hfirst
    obtain ⟨first, others, rfl⟩ := List.exists_cons_of_ne_nil hfirst
    obtain ⟨before, hbefore⟩ := Option.isSome_iff_exists.mp (hgiven hfirst)
    have hpieces : (text.toList.splitOn ',').mapM Numeral.real? = some value := hread
    have hfront : ((first :: others).flatMap fun text => text.toList.splitOn ',').mapM
        Numeral.real? = some before := hbefore
    rw [hbefore, List.cons_append, readAll?, ← List.cons_append, List.flatMap_append,
      List.flatMap_singleton, List.mapM_append, hfront, hpieces]
    rfl

end Choice

/-! ### Reading the arguments -/

variable {occurrences : List Occurrence} {occurrence : Occurrence} {draft next : Draft}
  {progress : Progress} {choice : Choice} {switch : Switch} {spelling : Spelling} {text : String}

namespace Draft

/-- A draft holds what stands on the command line. -/
structure Holds (occurrences : List Occurrence) (draft : Draft) : Prop where
  value?_eq : ∀ choice : Choice, draft.value? choice = choice.readAll? (texts occurrences choice)
  given : ∀ choice : Choice, texts occurrences choice ≠ [] → (draft.value? choice).isSome = true
  flag?_eq : ∀ switch : Switch,
    draft.flag? switch = if .switch switch ∈ occurrences then some true else none

/-- Before anything is read, the draft holds nothing. -/
theorem holds_empty : Draft.empty.Holds [] where
  value?_eq choice := by rw [value?_empty]; exact choice.readAll?_nil.symm
  given _ h := absurd rfl h
  flag?_eq switch := by rw [flag?_empty, if_neg List.not_mem_nil]

/-- A draft has a value for the options that are on the command line. -/
theorem Holds.value?_eq_none_iff (h : draft.Holds occurrences) :
    draft.value? choice = none ↔ texts occurrences choice = [] := by
  constructor
  · intro hnone
    by_contra hne
    simpa [hnone] using h.given choice hne
  · intro hnil
    rw [h.value?_eq, hnil, choice.readAll?_nil]

/-- An option is given a value that can be read. -/
theorem Holds.give (h : draft.Holds occurrences) (spelling : Spelling) (hread : choice.Reads text)
    (hagain : choice = .peerCapacities ∨ texts occurrences choice = []) :
    ∃ next, Progress.give draft choice text = .ok next ∧
      next.Holds (occurrences ++ [.valued spelling choice text]) := by
  obtain ⟨value, hvalue⟩ := Option.isSome_iff_exists.mp hread
  have hfree : (draft.has choice && decide (choice ≠ .peerCapacities)) = false := by
    rcases hagain with rfl | hnil
    · simp
    · rw [has_eq, h.value?_eq_none_iff.mpr hnil]
      rfl
  refine ⟨draft.set choice (choice.add (draft.value? choice) value), ?_, ?_, ?_, ?_⟩
  · rw [Progress.give, hfree, put?_eq, hvalue]
    rfl
  · intro other
    rw [texts_append]
    by_cases hother : other = choice
    · subst hother
      have hgiven := h.given other
      rw [h.value?_eq] at hgiven ⊢
      rw [value?_set_self, texts_valued_self, Choice.readAll?_concat hagain hgiven hvalue]
    · rw [value?_set_of_ne hother, texts_valued_of_ne hother, List.append_nil, h.value?_eq]
  · intro other hne
    by_cases hother : other = choice
    · subst hother
      rw [value?_set_self]
      rfl
    · rw [texts_append, texts_valued_of_ne hother, List.append_nil] at hne
      rw [value?_set_of_ne hother]
      exact h.given other hne
  · intro switch
    rw [flag?_set, h.flag?_eq]
    simp

/-- A switch is set. -/
theorem Holds.putSwitch (h : draft.Holds occurrences) (switch : Switch) :
    (draft.putSwitch switch true).Holds (occurrences ++ [.switch switch]) where
  value?_eq choice := by
    rw [value?_putSwitch, texts_append, texts_switch, List.append_nil, h.value?_eq]
  given choice hne := by
    rw [texts_append, texts_switch, List.append_nil] at hne
    rw [value?_putSwitch]
    exact h.given choice hne
  flag?_eq another := by
    by_cases hanother : another = switch
    · subst hanother
      simp
    · rw [flag?_putSwitch_of_ne hanother, h.flag?_eq]
      simp [hanother]

end Draft

namespace Argument

/-- An option with its value is taken apart at the first equals sign, and no name has one. -/
theorem ofChars_attached (choice : Choice) (text : String) :
    ofChars ("--" ++ choice.name ++ "=" ++ text).toList = .long choice.name (some text) := by
  have hname : ∀ c ∈ choice.name.toList, decide (c ≠ '=') = true :=
    List.all_eq_true.mp (by cases choice <;> rfl)
  have hchars : ("--" ++ choice.name ++ "=" ++ text).toList =
      '-' :: '-' :: (choice.name.toList ++ '=' :: text.toList) := by
    simp [String.toList_append]
  have hne : choice.name.toList ++ '=' :: text.toList ≠ [] := by simp
  rw [hchars, ofChars, ofLong, List.takeWhile_append_of_pos hname,
    List.dropWhile_append_of_pos hname]
  · simp
  · exact hne

/-- Two dashes and the name of an option make the argument that names the option without a value. -/
theorem ofChars_name (choice : Choice) :
    ofChars ("--" ++ choice.name).toList = .long choice.name none := by
  cases choice <;> decide

/-- Two dashes and the name of a switch make the argument that names the switch. -/
theorem ofChars_switch (switch : Switch) :
    ofChars ("--" ++ switch.name).toList = .long switch.name none := by
  cases switch <;> decide

/-- What does not start with a dash is no option. -/
theorem ofChars_plain {cs : List Char} (h : cs.head? ≠ some '-') : ofChars cs = .plain := by
  unfold ofChars
  split
  · exact absurd rfl h
  · exact absurd rfl h
  · exact absurd rfl h
  · rfl

end Argument

/-- An option is found by its name. -/
theorem Keyword.ofName?_choice (choice : Choice) :
    Keyword.ofName? choice.name = some (.choice choice) := by
  cases choice <;> decide

/-- A switch is found by its name. -/
theorem Keyword.ofName?_switch (switch : Switch) :
    Keyword.ofName? switch.name = some (.switch switch) := by
  cases switch <;> decide

namespace Progress

/-- An option with its value in one argument. -/
theorem step_attached (hended : progress.ended = false) (hsettle : progress.settle = .ok draft)
    (hgive : give draft choice text = .ok next) :
    progress.step ("--" ++ choice.name ++ "=" ++ text) = .ok ⟨next, none, false⟩ := by
  rw [step, hended, if_neg Bool.false_ne_true, Argument.ofChars_attached]
  dsimp only
  rw [Keyword.ofName?_choice, hsettle]
  dsimp only [bind, Except.bind]
  rw [hgive]
  rfl

/-- An option whose value is to come. -/
theorem step_name (hended : progress.ended = false) (hsettle : progress.settle = .ok draft) :
    progress.step ("--" ++ choice.name) = .ok ⟨draft, some (choice, none), false⟩ := by
  rw [step, hended, if_neg Bool.false_ne_true, Argument.ofChars_name]
  dsimp only
  rw [Keyword.ofName?_choice]
  dsimp only
  rw [actOn, hsettle, hended]
  rfl

/-- The value that comes is put aside. -/
theorem step_text (h : text.toList.head? ≠ some '-') :
    step ⟨draft, some (choice, none), false⟩ text =
      .ok ⟨draft, some (choice, some text), false⟩ := by
  rw [step, if_neg Bool.false_ne_true, Argument.ofChars_plain h]

/-- A switch that has not been given. -/
theorem step_switch (hended : progress.ended = false) (hsettle : progress.settle = .ok draft)
    (hfree : draft.hasSwitch switch = false) :
    progress.step ("--" ++ switch.name) = .ok ⟨draft.putSwitch switch true, none, false⟩ := by
  rw [step, hended, if_neg Bool.false_ne_true, Argument.ofChars_switch]
  dsimp only
  rw [Keyword.ofName?_switch]
  dsimp only
  rw [actOn, hsettle]
  dsimp only [bind, Except.bind]
  rw [hfree, hended]
  rfl

/-- What has been read is what stands on the command line so far, once the value that was put aside
has been looked at. -/
structure Ready (occurrences : List Occurrence) (progress : Progress) : Prop where
  ended : progress.ended = false
  settles : ∃ draft, progress.settle = .ok draft ∧ draft.Holds occurrences

/-- The option that comes next is read. -/
theorem Ready.read (h : progress.Ready occurrences) (hwell : occurrence.WellFormed)
    (hfresh : ∀ earlier ∈ occurrences, earlier.keyword = occurrence.keyword →
      earlier.keyword = .choice .peerCapacities) :
    ∃ next, occurrence.arguments.foldlM step progress = .ok next ∧
      next.Ready (occurrences ++ [occurrence]) := by
  obtain ⟨hended, draft, hsettle, hholds⟩ := h
  cases occurrence with
  | valued spelling choice text =>
    have hagain : choice = .peerCapacities ∨ texts occurrences choice = [] := by
      refine or_iff_not_imp_right.mpr fun htexts => ?_
      obtain ⟨given, hgiven⟩ := List.exists_mem_of_ne_nil _ htexts
      obtain ⟨earlier, hmem, htext⟩ := List.mem_filterMap.mp hgiven
      have hkeyword := keyword_of_text? htext
      exact Keyword.choice.inj (hkeyword.symm.trans (hfresh earlier hmem hkeyword))
    cases spelling with
    | attached =>
      obtain ⟨next, hgive, hnext⟩ := hholds.give .attached hwell hagain
      refine ⟨⟨next, none, false⟩, ?_, rfl, next, rfl, hnext⟩
      rw [Occurrence.arguments, List.foldlM_cons, step_attached hended hsettle hgive]
      rfl
    | separate =>
      obtain ⟨next, hgive, hnext⟩ := hholds.give .separate hwell.1 hagain
      refine ⟨⟨draft, some (choice, some text), false⟩, ?_, rfl, next, hgive, hnext⟩
      rw [Occurrence.arguments, List.foldlM_cons, step_name hended hsettle]
      dsimp only [bind, Except.bind]
      rw [List.foldlM_cons, step_text hwell.2]
      rfl
  | switch switch =>
    have hfree : draft.hasSwitch switch = false := by
      have hnot : Occurrence.switch switch ∉ occurrences := fun hmem => by
        cases hfresh _ hmem rfl
      rw [Draft.hasSwitch_eq, hholds.flag?_eq, if_neg hnot]
      rfl
    refine ⟨⟨draft.putSwitch switch true, none, false⟩, ?_, rfl, _, rfl, hholds.putSwitch switch⟩
    rw [Occurrence.arguments, List.foldlM_cons, step_switch hended hsettle hfree]
    rfl

end Progress

namespace CommandLine

/-- **All options of a command line are read**, by induction from its end. -/
theorem exists_read (hdistinct : Distinct occurrences)
    (hwell : ∀ occurrence ∈ occurrences, occurrence.WellFormed) :
    ∃ draft, read (occurrences.flatMap Occurrence.arguments) = .ok draft ∧
      draft.Holds occurrences := by
  suffices ∃ progress, (occurrences.flatMap Occurrence.arguments).foldlM Progress.step
      Progress.start = .ok progress ∧ progress.Ready occurrences by
    obtain ⟨progress, hread, -, draft, hsettle, hholds⟩ := this
    refine ⟨draft, ?_, hholds⟩
    rw [read, hread]
    exact hsettle
  induction occurrences using List.reverseRecOn with
  | nil => exact ⟨.start, rfl, rfl, .empty, rfl, Draft.holds_empty⟩
  | append_singleton occurrences occurrence ih =>
    obtain ⟨hbefore, -, hfresh⟩ := List.pairwise_append.mp hdistinct
    obtain ⟨hwellBefore, hwellLast⟩ := List.forall_mem_append.mp hwell
    obtain ⟨progress, hread, hready⟩ := ih hbefore hwellBefore
    obtain ⟨next, hstep, hnext⟩ := hready.read (hwellLast occurrence List.mem_cons_self)
      fun earlier hmem => hfresh earlier hmem occurrence List.mem_cons_self
    refine ⟨next, ?_, hnext⟩
    rw [List.flatMap_append, List.flatMap_singleton, List.foldlM_append, hread]
    exact hstep

end CommandLine

end FlowControl
