import FlowControl.Proofs.Options.Arguments
import Mathlib.Data.List.Perm.Basic

/-!
# Which value an option has

Each option is resolved by itself: by the texts that stand for it on the command line, or else by
its variable, or else by the standard settings. So neither the order of the options matters, but for
that of the capacities among themselves, nor does anything that is said of other options, nor a
variable whose option is on the command line.
-/

namespace FlowControl

open Occurrence (Distinct keyword_of_text? texts)

/-- The value of an option: that of its texts on the command line, or else that of its variable, or
else the standard one. -/
def Choice.resolve? (choice : Choice) (texts : List String) (variableText? : Option String) :
    Option choice.Carrier :=
  if texts ≠ [] then choice.readAll? texts
  else
    match variableText? with
    | some text => choice.read? text
    | none => some (Settings.standard.value choice)

/-- Whether a switch is on: if it is on the command line, or else if its variable says so, or else
as in the standard settings. -/
def Switch.resolve (switch : Switch) (given : Bool) (variableText? : Option String) : Bool :=
  if given then true
  else
    match variableText? with
    | some text => text = "true"
    | none => Settings.standard.flag switch

/-- The text of the variable of a switch, if it has one. -/
def Environment.switchText? (environment : Environment) (switch : Switch) : Option String :=
  switch.environmentName?.bind environment

/-- Arguments and an environment that can be read: each option is given once at most, but for
capacities, and its value can be read, and so can those of the variables that are looked at. -/
structure WellGiven (occurrences : List Occurrence) (environment : Environment) : Prop where
  distinct : Distinct occurrences
  wellFormed : ∀ occurrence ∈ occurrences, occurrence.WellFormed
  readable : ∀ choice : Choice, texts occurrences choice = [] →
    ∀ text ∈ environment choice.environmentName, choice.Reads text
  decided : ∀ switch : Switch, .switch switch ∉ occurrences →
    ∀ text ∈ environment.switchText? switch, text = "true" ∨ text = "false"

variable {occurrences occurrences' : List Occurrence} {environment environment' : Environment}
  {draft : Draft} {choice : Choice} {switch : Switch}

/-! ### Reading the environment -/

namespace Environment

/-- The value of a variable for its option. -/
def value? (environment : Environment) (choice : Choice) : Option choice.Carrier :=
  (environment choice.environmentName).bind choice.read?

/-- An option without a value gets that of its variable. -/
theorem exists_fillChoice (hread : draft.value? choice = none →
      ∀ text ∈ environment choice.environmentName, choice.Reads text) :
    ∃ next, environment.fillChoice draft choice = .ok next ∧
      next.value? choice = (draft.value? choice).or (environment.value? choice) ∧
      (∀ other ≠ choice, next.value? other = draft.value? other) ∧
      ∀ switch, next.flag? switch = draft.flag? switch := by
  rw [fillChoice, Draft.has_eq, value?]
  cases hvalue : draft.value? choice with
  | some value => exact ⟨draft, rfl, hvalue, fun _ _ => rfl, fun _ => rfl⟩
  | none =>
    cases htext : environment choice.environmentName with
    | none => exact ⟨draft, rfl, hvalue, fun _ _ => rfl, fun _ => rfl⟩
    | some text =>
      obtain ⟨value, hvalue'⟩ := Option.isSome_iff_exists.mp (hread hvalue text htext)
      have hadd : choice.add none value = value := by cases choice <;> rfl
      refine ⟨draft.set choice value, ?_, ?_, fun other hne => Draft.value?_set_of_ne hne value,
        fun switch => Draft.flag?_set value⟩
      · simp [Draft.put?_eq, hvalue, hvalue', hadd]
      · simp [hvalue']

/-- Options without a value get those of their variables, by induction on the options. -/
theorem exists_fillChoices (choices : List Choice)
    (hread : ∀ choice, draft.value? choice = none →
      ∀ text ∈ environment choice.environmentName, choice.Reads text) :
    ∃ next, choices.foldlM environment.fillChoice draft = .ok next ∧
      (∀ choice, next.value? choice = if choice ∈ choices then
        (draft.value? choice).or (environment.value? choice) else draft.value? choice) ∧
      ∀ switch, next.flag? switch = draft.flag? switch := by
  induction choices generalizing draft with
  | nil => exact ⟨draft, rfl, fun _ => rfl, fun _ => rfl⟩
  | cons first choices ih =>
    obtain ⟨middle, hfirst, hvalue, hothers, hflags⟩ := exists_fillChoice (hread first)
    have hmiddle : ∀ choice, middle.value? choice =
        if choice = first then (draft.value? choice).or (environment.value? choice)
        else draft.value? choice := by
      intro choice
      split_ifs with heq
      · rw [heq, hvalue]
      · exact hothers choice heq
    have hnone : ∀ choice, middle.value? choice = none → draft.value? choice = none := by
      intro choice hnone
      rw [hmiddle] at hnone
      split_ifs at hnone
      · exact (Option.or_eq_none_iff.mp hnone).1
      · exact hnone
    obtain ⟨next, hrest, hnext, hflags'⟩ := ih fun choice h => hread choice (hnone choice h)
    refine ⟨next, ?_, fun choice => ?_, fun switch => (hflags' switch).trans (hflags switch)⟩
    · rw [List.foldlM_cons, hfirst]
      exact hrest
    · rw [hnext, hmiddle]
      by_cases heq : choice = first
      · simp [heq, Option.or_assoc]
      · simp [heq]

/-- A switch that is not given is as its variable says. -/
theorem exists_fillSwitch (switch : Switch)
    (hdecided : draft.flag? switch = none →
      ∀ text ∈ environment.switchText? switch, text = "true" ∨ text = "false") :
    ∃ next, environment.fillSwitch draft switch = .ok next ∧
      next.flag? switch =
        (draft.flag? switch).or ((environment.switchText? switch).map (· = "true")) ∧
      (∀ another ≠ switch, next.flag? another = draft.flag? another) ∧
      ∀ choice, next.value? choice = draft.value? choice := by
  unfold fillSwitch
  rw [Draft.hasSwitch_eq]
  cases hflag : draft.flag? switch with
  | some b => exact ⟨draft, rfl, hflag, fun _ _ => rfl, fun _ => rfl⟩
  | none =>
    have hset (b : Bool) : (∀ another ≠ switch,
        (draft.putSwitch switch b).flag? another = draft.flag? another) ∧
        ∀ choice, (draft.putSwitch switch b).value? choice = draft.value? choice :=
      ⟨fun _ hne => Draft.flag?_putSwitch_of_ne hne, fun _ => Draft.value?_putSwitch⟩
    rw [switchText?] at hdecided ⊢
    cases htext : switch.environmentName?.bind environment with
    | none => exact ⟨draft, rfl, hflag, fun _ _ => rfl, fun _ => rfl⟩
    | some text =>
      rcases hdecided hflag text htext with rfl | rfl
      · exact ⟨draft.putSwitch switch true, rfl, Draft.flag?_putSwitch_self, hset true⟩
      · exact ⟨draft.putSwitch switch false, rfl, Draft.flag?_putSwitch_self, hset false⟩

/-- **What is not given is taken from the variables.** -/
theorem exists_fill
    (hread : ∀ choice, draft.value? choice = none →
      ∀ text ∈ environment choice.environmentName, choice.Reads text)
    (hdecided : ∀ switch, draft.flag? switch = none →
      ∀ text ∈ environment.switchText? switch, text = "true" ∨ text = "false") :
    ∃ next, environment.fill draft = .ok next ∧
      (∀ choice, next.value? choice = (draft.value? choice).or (environment.value? choice)) ∧
      ∀ switch, next.flag? switch =
        (draft.flag? switch).or ((environment.switchText? switch).map (· = "true")) := by
  obtain ⟨chosen, hchosen, hvalue, hflag⟩ := exists_fillChoices Choice.all hread
  obtain ⟨first, hfirst, hlog, hfirstOthers, hfirstValue⟩ :=
    exists_fillSwitch .logJson fun hnone =>
      hdecided .logJson ((hflag .logJson).symm.trans hnone)
  obtain ⟨second, hsecond, hreport, hsecondOthers, hsecondValue⟩ :=
    exists_fillSwitch .reportJson fun hnone =>
      hdecided .reportJson (by rw [← hflag, ← hfirstOthers .reportJson (by decide), hnone])
  refine ⟨second, ?_, fun choice => ?_, fun switch => ?_⟩
  · rw [fill, hchosen]
    dsimp only [bind, Except.bind]
    rw [Switch.all, List.foldlM_cons, hfirst]
    dsimp only [bind, Except.bind]
    rw [List.foldlM_cons, hsecond]
    rfl
  · have hall : choice ∈ Choice.all := by cases choice <;> decide
    rw [hsecondValue, hfirstValue, hvalue, if_pos hall]
  · cases switch with
    | logJson => rw [hsecondOthers .logJson (by decide), hlog, hflag]
    | reportJson => rw [hreport, hfirstOthers .reportJson (by decide), hflag]

end Environment

/-! ### The settings -/

namespace CommandLine

/-- **Each option is resolved by itself.** -/
theorem exists_parse (h : WellGiven occurrences environment) :
    ∃ settings, parse (occurrences.flatMap Occurrence.arguments) environment = .ok settings ∧
      (∀ choice : Choice, choice.resolve? (texts occurrences choice)
        (environment choice.environmentName) = some (settings.value choice)) ∧
      ∀ switch : Switch, settings.flag switch =
        switch.resolve (.switch switch ∈ occurrences) (environment.switchText? switch) := by
  obtain ⟨draft, hread, hholds⟩ := exists_read h.distinct h.wellFormed
  have hnone : ∀ choice, draft.value? choice = none → texts occurrences choice = [] :=
    fun _ => hholds.value?_eq_none_iff.mp
  have hfree : ∀ switch, draft.flag? switch = none → .switch switch ∉ occurrences := by
    intro switch hfree hmem
    rw [hholds.flag?_eq, if_pos hmem] at hfree
    cases hfree
  obtain ⟨filled, hfill, hvalue, hflag⟩ := Environment.exists_fill
    (fun choice hchoice => h.readable choice (hnone choice hchoice))
    (fun switch hswitch => h.decided switch (hfree switch hswitch))
  refine ⟨filled.settings, ?_, fun choice => ?_, fun switch => ?_⟩
  · rw [parse, hread]
    dsimp only [bind, Except.bind]
    rw [hfill]
    rfl
  · rw [Draft.value_settings, hvalue]
    unfold Choice.resolve?
    split_ifs with hgiven
    · obtain ⟨value, hvalue⟩ := Option.isSome_iff_exists.mp (hholds.given choice hgiven)
      rw [← hholds.value?_eq, hvalue]
      rfl
    · rw [hholds.value?_eq_none_iff.mpr (not_not.mp hgiven), Option.none_or, Environment.value?]
      cases htext : environment choice.environmentName with
      | none => rfl
      | some text =>
        obtain ⟨value, hvalue⟩ := Option.isSome_iff_exists.mp
          (h.readable choice (not_not.mp hgiven) text htext)
        simp [hvalue]
  · rw [Draft.flag_settings, hflag, hholds.flag?_eq]
    unfold Switch.resolve
    by_cases hmem : .switch switch ∈ occurrences
    · simp [hmem]
    · cases environment.switchText? switch <;> simp [hmem]

end CommandLine

/-! ### Other orders and other variables -/

/-- A variable is looked at if its option is not on the command line. -/
def LooksAt (occurrences : List Occurrence) (name : String) : Prop :=
  (∃ choice : Choice, choice.environmentName = name ∧ texts occurrences choice = []) ∨
    ∃ switch : Switch, switch.environmentName? = some name ∧ .switch switch ∉ occurrences

/-- The texts of a switch are those of a variable that is looked at. -/
theorem switchText?_congr
    (hsame : ∀ name, LooksAt occurrences name → environment' name = environment name)
    (hgiven : .switch switch ∉ occurrences) :
    environment'.switchText? switch = environment.switchText? switch := by
  rw [Environment.switchText?, Environment.switchText?]
  cases hname : switch.environmentName? with
  | none => rfl
  | some name => exact hsame name (Or.inr ⟨switch, hname, hgiven⟩)

/-- Variables that are not looked at may hold any text. -/
theorem WellGiven.congr_environment (h : WellGiven occurrences environment)
    (hsame : ∀ name, LooksAt occurrences name → environment' name = environment name) :
    WellGiven occurrences environment' where
  distinct := h.distinct
  wellFormed := h.wellFormed
  readable choice hnil := by
    rw [hsame _ (Or.inl ⟨choice, rfl, hnil⟩)]
    exact h.readable choice hnil
  decided switch hgiven := by
    rw [switchText?_congr hsame hgiven]
    exact h.decided switch hgiven

/-- An option other than that of the capacities has one text at most. -/
theorem pairwise_texts (h : Distinct occurrences) (hne : choice ≠ .peerCapacities) :
    (texts occurrences choice).Pairwise fun _ _ => False := by
  rw [texts, List.pairwise_filterMap]
  refine h.imp fun hkeyword text htext other hother => ?_
  have hfirst := keyword_of_text? htext
  have hsecond := keyword_of_text? hother
  exact hne (Keyword.choice.inj (hfirst.symm.trans (hkeyword (hfirst.trans hsecond.symm))))

/-- Options in another order have the same texts, if the capacities have. -/
theorem texts_eq_of_perm (h : Distinct occurrences) (hperm : occurrences'.Perm occurrences)
    (hcapacities : texts occurrences' .peerCapacities = texts occurrences .peerCapacities)
    (choice : Choice) : texts occurrences' choice = texts occurrences choice := by
  by_cases hne : choice = .peerCapacities
  · rw [hne, hcapacities]
  have htexts : (texts occurrences' choice).Perm (texts occurrences choice) := hperm.filterMap _
  have hsingle := pairwise_texts h hne
  cases hgiven : texts occurrences choice with
  | nil =>
    rw [hgiven] at htexts
    exact htexts.eq_nil
  | cons first others =>
    rw [hgiven] at htexts hsingle
    have hothers : others = [] :=
      List.eq_nil_iff_forall_not_mem.mpr fun other hmem =>
        (List.pairwise_cons.mp hsingle).1 other hmem
    rw [hothers] at htexts ⊢
    exact List.perm_singleton.mp htexts

/-- Options may stand in any order, if the capacities keep theirs. -/
theorem WellGiven.perm (h : WellGiven occurrences environment)
    (hperm : occurrences'.Perm occurrences)
    (htexts : ∀ choice, texts occurrences' choice = texts occurrences choice) :
    WellGiven occurrences' environment where
  distinct := h.distinct.perm hperm.symm fun hkeyword heq => heq.trans (hkeyword heq.symm)
  wellFormed occurrence hmem := h.wellFormed occurrence (hperm.mem_iff.mp hmem)
  readable choice hnil := h.readable choice ((htexts choice).symm.trans hnil)
  decided switch hgiven := h.decided switch fun hmem => hgiven (hperm.mem_iff.mpr hmem)

/-- The value of an option depends on its texts, and on its variable if there are none. -/
theorem value_congr {settings settings' : Settings}
    (hvalue : choice.resolve? (texts occurrences choice) (environment choice.environmentName) =
      some (settings.value choice))
    (hvalue' : choice.resolve? (texts occurrences' choice) (environment' choice.environmentName) =
      some (settings'.value choice))
    (htexts : texts occurrences' choice = texts occurrences choice)
    (hsame : texts occurrences choice = [] →
      environment' choice.environmentName = environment choice.environmentName) :
    settings'.value choice = settings.value choice := by
  rw [← Option.some_inj, ← hvalue, ← hvalue', htexts]
  by_cases hnil : texts occurrences choice = []
  · rw [hsame hnil]
  · unfold Choice.resolve?
    rw [if_pos hnil, if_pos hnil]

/-- A switch depends on whether it is given, and on its variable if it is not. -/
theorem flag_congr (hgiven : .switch switch ∈ occurrences' ↔ .switch switch ∈ occurrences)
    (hsame : .switch switch ∉ occurrences →
      environment'.switchText? switch = environment.switchText? switch) :
    switch.resolve (.switch switch ∈ occurrences') (environment'.switchText? switch) =
      switch.resolve (.switch switch ∈ occurrences) (environment.switchText? switch) := by
  by_cases hmem : .switch switch ∈ occurrences
  · simp [Switch.resolve, hmem, hgiven.mpr hmem]
  · simp [hmem, mt hgiven.mp hmem, hsame hmem]

namespace CommandLine

/-- Command lines and environments that agree option by option give the same settings. -/
theorem parse_congr {settings : Settings} (h : WellGiven occurrences environment)
    (hparse : parse (occurrences.flatMap Occurrence.arguments) environment = .ok settings)
    (h' : WellGiven occurrences' environment')
    (htexts : ∀ choice, texts occurrences' choice = texts occurrences choice)
    (hsame : ∀ choice, texts occurrences choice = [] →
      environment' choice.environmentName = environment choice.environmentName)
    (hgiven : ∀ switch, .switch switch ∈ occurrences' ↔ .switch switch ∈ occurrences)
    (hswitch : ∀ switch, .switch switch ∉ occurrences →
      environment'.switchText? switch = environment.switchText? switch) :
    parse (occurrences'.flatMap Occurrence.arguments) environment' = .ok settings := by
  obtain ⟨known, hknown, hvalue, hflag⟩ := exists_parse h
  obtain rfl := Except.ok.inj (hknown.symm.trans hparse)
  obtain ⟨other, hother, hvalue', hflag'⟩ := exists_parse h'
  rw [hother, Except.ok.injEq]
  refine Settings.ext_value (fun choice => ?_) fun switch => ?_
  · exact value_congr (hvalue choice) (hvalue' choice) (htexts choice) (hsame choice)
  · rw [hflag, hflag', flag_congr (hgiven switch) (hswitch switch)]

/-- **Every option is resolved by itself, in any order.** If the arguments and the variables that
are looked at can be read, then there are settings, and each of their values is that of the texts on
the command line, or else that of its own variable, or else the standard one; the JSON report alone
has no variable. The settings are the same in any other order of the options that keeps that of the
capacities, and with any texts in the variables of options on the command line. A value stays as it
is whatever else is said of other options and variables that can be read. -/
theorem parse_resolves (h : WellGiven occurrences environment) :
    ∃ settings, parse (occurrences.flatMap Occurrence.arguments) environment = .ok settings ∧
      (∀ choice : Choice, choice.resolve? (texts occurrences choice)
        (environment choice.environmentName) = some (settings.value choice)) ∧
      (∀ switch : Switch, settings.flag switch =
        switch.resolve (.switch switch ∈ occurrences) (environment.switchText? switch)) ∧
      (∀ occurrences', occurrences'.Perm occurrences →
        texts occurrences' .peerCapacities = texts occurrences .peerCapacities →
        parse (occurrences'.flatMap Occurrence.arguments) environment = .ok settings) ∧
      (∀ environment', (∀ name, LooksAt occurrences name → environment' name = environment name) →
        parse (occurrences.flatMap Occurrence.arguments) environment' = .ok settings) ∧
      ∀ occurrences' environment' settings', WellGiven occurrences' environment' →
        parse (occurrences'.flatMap Occurrence.arguments) environment' = .ok settings' →
        (∀ choice : Choice, texts occurrences' choice = texts occurrences choice →
          (texts occurrences choice = [] →
            environment' choice.environmentName = environment choice.environmentName) →
          settings'.value choice = settings.value choice) ∧
        ∀ switch : Switch, (.switch switch ∈ occurrences' ↔ .switch switch ∈ occurrences) →
          (.switch switch ∉ occurrences →
            environment'.switchText? switch = environment.switchText? switch) →
          settings'.flag switch = settings.flag switch := by
  obtain ⟨settings, hparse, hvalue, hflag⟩ := exists_parse h
  refine ⟨settings, hparse, hvalue, hflag, fun occurrences' hperm hcapacities => ?_,
    fun environment' hsame => ?_, fun occurrences' environment' settings' h' hparse' => ?_⟩
  · have htexts := texts_eq_of_perm h.distinct hperm hcapacities
    exact parse_congr h hparse (h.perm hperm htexts) htexts (fun _ _ => rfl)
      (fun _ => hperm.mem_iff) fun _ _ => rfl
  · exact parse_congr h hparse (h.congr_environment hsame) (fun _ => rfl)
      (fun choice hnil => hsame _ (Or.inl ⟨choice, rfl, hnil⟩)) (fun _ => Iff.rfl)
      fun _ hgiven => switchText?_congr hsame hgiven
  · obtain ⟨known, hknown, hvalue', hflag'⟩ := exists_parse h'
    obtain rfl := Except.ok.inj (hknown.symm.trans hparse')
    refine ⟨fun choice htexts hsame => ?_, fun switch hgiven hsame => ?_⟩
    · exact value_congr (hvalue choice) (hvalue' choice) htexts hsame
    · rw [hflag, hflag', flag_congr hgiven hsame]

/-- Two lots of capacities around other options, the factor and the form of the logs in variables,
and a variable without any number whose option is given. -/
theorem parse_resolves_two_lots :
    let environment : Environment := fun name =>
      if name = "BACKFLOW_HIGH_RATIO" then some "high"
      else if name = "BACKFLOW_FACTOR" then some "10"
      else if name = "BACKFLOW_LOG_JSON" then some "true"
      else none
    ∃ settings,
      parse ["--peer-capacities=10,20", "--high-ratio", "0.8", "--report-json",
        "--peer-capacities", "30"] environment = .ok settings ∧
      parse ["--report-json", "--peer-capacities=10,20", "--peer-capacities", "30",
        "--high-ratio", "0.8"] environment = .ok settings ∧
      settings.load.capacities = [10, 20, 30] ∧ settings.policy.highRatio = 0.8 ∧
      settings.policy.factor = 10 ∧ settings.policy.windowMs = 2000 ∧
      settings.logJson = true ∧ settings.reportJson = true := by
  intro environment
  have hgiven : WellGiven [.valued .attached .peerCapacities "10,20",
      .valued .separate .highRatio "0.8", .switch .reportJson,
      .valued .separate .peerCapacities "30"] environment := by
    refine ⟨by decide, by decide +kernel, fun choice hnil text htext => ?_,
      fun switch _ text htext => ?_⟩
    · cases choice with
      | highRatio => cases hnil
      | factor =>
        obtain rfl : "10" = text := Option.some_inj.mp htext
        decide +kernel
      | _ => cases htext
    · cases switch with
      | logJson => exact Or.inl (Option.some_inj.mp htext).symm
      | reportJson => cases htext
  obtain ⟨settings, hparse, hvalue, hflag, hperm, -, -⟩ := parse_resolves hgiven
  refine ⟨settings, hparse, hperm [.switch .reportJson, .valued .attached .peerCapacities "10,20",
    .valued .separate .peerCapacities "30", .valued .separate .highRatio "0.8"] ?_ ?_, ?_⟩
  · decide
  · decide
  · refine ⟨?_, ?_, ?_, ?_, hflag .logJson, hflag .reportJson⟩
    · exact Option.some_inj.mp ((hvalue .peerCapacities).symm.trans (by decide +kernel))
    · exact Option.some_inj.mp ((hvalue .highRatio).symm.trans (by decide +kernel))
    · exact Option.some_inj.mp ((hvalue .factor).symm.trans (by decide +kernel))
    · exact Option.some_inj.mp ((hvalue .windowMs).symm.trans (by decide +kernel))

end CommandLine

end FlowControl
