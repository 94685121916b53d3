import FlowControl.Proofs.Pacing.Period
import FlowControl.Proofs.Policy.Rules
import FlowControl.Proofs.Trial.Ends

/-!
# Which settings are tried

A load is refused for the first fault that it has, and the policy is looked at only after that.
What is accepted can be timed: in every trial of such settings the timers have periods that are
neither zero nor longer than an hour, and no conversion of seconds to a span fails.
-/

namespace FlowControl

open Binary64

namespace LoadSettings

/-- A rate is a number above zero and at most a million. -/
def WithinReach (rate : Float) : Prop := ∃ q : ℚ, HasSize rate q ∧ 0 < q ∧ q ≤ 1000000

/-- What is wrong with a load before all else. -/
inductive FirstFault (load : LoadSettings) : LoadFault → Prop
  /-- The offered rate. -/
  | offered (h : ¬ WithinReach load.offeredRate) :
    FirstFault load (.offeredOutOfRange load.offeredRate)
  /-- The offered rate is fine, and there is no peer. -/
  | noPeer (hoffered : WithinReach load.offeredRate) (h : load.capacities = []) :
    FirstFault load .noPeer
  /-- The offered rate is fine, and so are the capacities before this one. -/
  | capacity {before after : List Float} {capacity : Float}
    (hoffered : WithinReach load.offeredRate)
    (hsplit : load.capacities = before ++ capacity :: after)
    (hbefore : ∀ earlier ∈ before, WithinReach earlier) (h : ¬ WithinReach capacity) :
    FirstFault load (.capacityOutOfRange capacity)
  /-- All rates are fine, and the peers cannot hold a message. -/
  | depth (hoffered : WithinReach load.offeredRate) (hpeer : load.capacities ≠ [])
    (hcapacities : ∀ capacity ∈ load.capacities, WithinReach capacity)
    (h : load.queueDepth = 0) : FirstFault load .zeroDepth

/-- A load that can be tried. -/
structure Acceptable (load : LoadSettings) : Prop where
  offered : WithinReach load.offeredRate
  capacities_ne_nil : load.capacities ≠ []
  capacities : ∀ capacity ∈ load.capacities, WithinReach capacity
  depth_ne_zero : load.queueDepth ≠ 0

variable {load : LoadSettings} {fault : LoadFault} {rate : Float}

/-- The size of a million. -/
theorem hasSize_million : HasSize 1000000 (1000000 : ℚ) :=
  hasSize_of_eq_word 1000000 (by decide +kernel) (by decide) Nat.cast_ofNat

/-- The comparisons of the check find out whether a rate is within reach. -/
theorem isReachable_iff : IsReachable rate ↔ WithinReach rate := by
  constructor
  · rintro ⟨hpos, hle⟩
    obtain ⟨s, hs⟩ := exists_hasSize_of_lt hasSize_zero hpos
    have hpos' := (hasSize_zero.lt_iff hs).mp hpos
    have hle' := (hs.le_iff hasSize_million).mp hle
    lift s to ℚ using (hle'.trans_lt (WithTop.coe_lt_top _)).ne
    exact ⟨s, hs, WithTop.coe_lt_coe.mp hpos', WithTop.coe_le_coe.mp hle'⟩
  · rintro ⟨q, hq, hpos, hle⟩
    exact ⟨(hasSize_zero.lt_iff hq).mpr (WithTop.coe_lt_coe.mpr hpos),
      (hq.le_iff hasSize_million).mpr (WithTop.coe_le_coe.mpr hle)⟩

/-- A rate within reach is above zero. -/
theorem WithinReach.pos (h : WithinReach rate) : 0 < rate := (isReachable_iff.mpr h).1

/-- A load with a fault is refused for the first one. -/
theorem FirstFault.check_eq (h : load.FirstFault fault) : load.check = .error fault := by
  cases h with
  | offered h => exact if_pos (mt isReachable_iff.mp h)
  | noPeer hoffered h =>
    rw [check, if_neg (not_not_intro (isReachable_iff.mpr hoffered)), h]
    rfl
  | @capacity before after capacity hoffered hsplit hbefore h =>
    have hfind : (load.capacities.find? fun capacity => ¬ IsReachable capacity) =
        some capacity := by
      rw [List.find?_eq_some_iff_append]
      refine ⟨by simpa using mt isReachable_iff.mp h, before, after, hsplit, fun earlier hmem => ?_⟩
      simpa using isReachable_iff.mpr (hbefore earlier hmem)
    have hnonempty : load.capacities.isEmpty = false := by simp [hsplit]
    rw [check, if_neg (not_not_intro (isReachable_iff.mpr hoffered)), hnonempty, hfind]
    rfl
  | depth hoffered hpeer hcapacities h =>
    have hfind : (load.capacities.find? fun capacity => ¬ IsReachable capacity) = none := by
      rw [List.find?_eq_none]
      exact fun capacity hmem => by simpa using isReachable_iff.mpr (hcapacities capacity hmem)
    have hnonempty : load.capacities.isEmpty = false := by simpa using hpeer
    rw [check, if_neg (not_not_intro (isReachable_iff.mpr hoffered)), hnonempty, hfind]
    exact if_pos h

/-- A load that is acceptable is accepted. -/
theorem Acceptable.check_eq (h : load.Acceptable) : load.check = .ok () := by
  have hfind : (load.capacities.find? fun capacity => ¬ IsReachable capacity) = none := by
    rw [List.find?_eq_none]
    exact fun capacity hmem => by simpa using isReachable_iff.mpr (h.capacities capacity hmem)
  have hnonempty : load.capacities.isEmpty = false := by simpa using h.capacities_ne_nil
  rw [check, if_neg (not_not_intro (isReachable_iff.mpr h.offered)), hnonempty, hfind]
  exact if_neg h.depth_ne_zero

/-- A load with a fault is not acceptable. -/
theorem FirstFault.not_acceptable (h : load.FirstFault fault) : ¬ load.Acceptable := by
  intro hacceptable
  cases hacceptable.check_eq.symm.trans h.check_eq

/-- Of capacities some of which are out of reach, one is the first of these. -/
theorem exists_first_out_of_reach {capacities : List Float}
    (h : ¬ ∀ capacity ∈ capacities, WithinReach capacity) :
    ∃ before capacity after, capacities = before ++ capacity :: after ∧
      (∀ earlier ∈ before, WithinReach earlier) ∧ ¬ WithinReach capacity := by
  induction capacities with
  | nil => exact absurd (List.forall_mem_nil _) h
  | cons first capacities ih =>
    by_cases hfirst : WithinReach first
    · rw [List.forall_mem_cons, not_and] at h
      obtain ⟨before, capacity, after, rfl, hbefore, hcapacity⟩ := ih (h hfirst)
      exact ⟨first :: before, capacity, after, rfl, List.forall_mem_cons.mpr ⟨hfirst, hbefore⟩,
        hcapacity⟩
    · exact ⟨[], first, capacities, rfl, List.forall_mem_nil _, hfirst⟩

/-- A load is acceptable or has a first fault. -/
theorem acceptable_or_firstFault (load : LoadSettings) :
    load.Acceptable ∨ ∃ fault, load.FirstFault fault := by
  by_cases hoffered : WithinReach load.offeredRate
  swap
  · exact Or.inr ⟨_, .offered hoffered⟩
  by_cases hpeer : load.capacities = []
  · exact Or.inr ⟨_, .noPeer hoffered hpeer⟩
  by_cases hcapacities : ∀ capacity ∈ load.capacities, WithinReach capacity
  swap
  · obtain ⟨before, capacity, after, hsplit, hbefore, hcapacity⟩ :=
      exists_first_out_of_reach hcapacities
    exact Or.inr ⟨_, .capacity hoffered hsplit hbefore hcapacity⟩
  by_cases hdepth : load.queueDepth = 0
  · exact Or.inr ⟨_, .depth hoffered hpeer hcapacities hdepth⟩
  · exact Or.inl ⟨hoffered, hpeer, hcapacities, hdepth⟩

end LoadSettings

/-! ### The timers of a trial -/

/-- The periods of the timers of a lane: that of its sender and that of its peer. -/
def Lane.periods (lane : Lane) : ℕ × ℕ := (lane.offers.period, lane.link.ticker.period)

namespace Trial

variable {settings : PolicySettings} {load : LoadSettings} {policy : Policy} {window : Span}
  {trial next last : Trial} {moves : List Move} {move : Move} {index : ℕ} {lane lane' : Lane}

/-- The timers of a trial have the periods of its load and of a quarter of its window. -/
structure Timed (load : LoadSettings) (window : Span) (trial : Trial) : Prop where
  periods_eq : trial.lanes.map Lane.periods = load.capacities.map fun capacity =>
    ((Pacing.period load.offeredRate).nanos, (Pacing.period capacity).nanos)
  checks_eq : trial.checks.period = (checkPeriod window).nanos

/-- The timers of a trial start with their periods. -/
theorem timed_start (settings : PolicySettings) (load : LoadSettings) (policy : Policy) :
    (start settings load policy).Timed load policy.window where
  periods_eq := by
    rw [lanes_start]
    apply List.ext_getElem?
    intro index
    simp [List.getElem?_mapIdx, Function.comp_def, Lane.periods, newLane, Lane.start, Link.start,
      Ticker.start]
  checks_eq := rfl

/-- A lane that keeps its periods is replaced. -/
theorem Timed.withLane (h : trial.Timed load window) (hlane : trial.lanes[index]? = some lane)
    (hperiods : lane'.periods = lane.periods) : (trial.withLane index lane').Timed load window where
  periods_eq := by
    rw [← h.periods_eq]
    apply List.ext_getElem?
    intro other
    rw [List.getElem?_map, getElem?_withLane hlane, List.getElem?_map]
    split_ifs with heq
    · rw [← heq, hlane, Option.map_some, Option.map_some, hperiods]
    · rfl
  checks_eq := h.checks_eq

/-- To count traffic keeps the periods. -/
theorem Timed.count (h : trial.Timed load window) (id : FlowId) (direction : Direction) :
    (trial.count id direction).Timed load window := ⟨h.periods_eq, h.checks_eq⟩

/-- A check keeps the periods. -/
theorem Timed.checked (h : trial.Timed load window) : trial.checked.Timed load window where
  periods_eq := h.periods_eq
  checks_eq := by rw [checked_checks, Ticker.tick_period, h.checks_eq]

/-- Every move keeps the periods. -/
theorem Timed.acts (h : trial.Timed load window) (hact : trial.Acts move next) :
    next.Timed load window := by
  cases hact with
  | offer pacer opens hlane _ _ _ =>
    exact h.withLane hlane (congrArg (·, _) Ticker.tick_period)
  | queue hlane _ _ _ _ => exact Timed.count (h.withLane hlane (by rfl)) _ _
  | drop hlane _ _ _ _ => exact Timed.count (h.withLane hlane (by rfl)) _ _
  | giveUp hlane _ _ _ => exact h.withLane hlane rfl
  | tick hlane _ _ => exact h.withLane hlane (congrArg (_, ·) Ticker.tick_period)
  | acknowledge hlane _ _ _ => exact h.withLane hlane rfl
  | hangUp hlane _ _ => exact h.withLane hlane rfl
  | hear hlane _ => exact Timed.count (h.withLane hlane (by rfl)) _ _
  | check _ => exact h.checked
  | rest _ => exact ⟨h.periods_eq, h.checks_eq⟩

/-- **At every point of every run the timers have their periods.** -/
theorem timed_run (hrun : (start settings load policy).run? moves = some last) :
    last.Timed load policy.window :=
  run?_preserves (fun h hact => h.acts hact) (timed_start settings load policy) hrun

/-- A supervisor checks no more often than once in a millisecond. -/
theorem checkPeriod_nanos (window : Span) :
    (checkPeriod window).nanos = max (window.nanos / 4) nanosPerMilli := by
  have hmilli : (Span.ofMillis 1).nanos = nanosPerMilli := by decide
  have hquarter : (window.div 4).nanos = window.nanos / 4 := rfl
  rw [checkPeriod, Span.nanos_max, hmilli, hquarter]

/-- The timers of a trial run at periods that are neither zero nor endless, and each of them comes
from seconds that are those of a span. -/
structure SafelyTimed (load : LoadSettings) (window : Span) (trial : Trial) : Prop where
  /-- There are a timer for the offered rate and one for the capacity in each lane. -/
  periods_eq : trial.lanes.map Lane.periods = load.capacities.map fun capacity =>
    ((Pacing.period load.offeredRate).nanos, (Pacing.period capacity).nanos)
  /-- The seconds of each rate are those of a span, and its period is this span, or a microsecond
  if that is longer. -/
  converts : ∀ rate ∈ load.offeredRate :: load.capacities, ∃ span,
    Span.ofSeconds? (Pacing.periodSeconds rate) = some span ∧
      (Pacing.period rate).nanos = max span.nanos 1000
  /-- The periods of loads are at least a microsecond and at most an hour. -/
  bounds : ∀ lane ∈ trial.lanes, ∀ period ∈ [lane.offers.period, lane.link.ticker.period],
    1000 ≤ period ∧ period ≤ 3600 * nanosPerSecond
  /-- The supervisor checks four times in a window, or once in a millisecond. -/
  checks_eq : trial.checks.period = max (window.nanos / 4) nanosPerMilli

/-- The timers of an acceptable load are safe. -/
theorem Timed.safely (h : trial.Timed load window) (hload : load.Acceptable) :
    trial.SafelyTimed load window where
  periods_eq := h.periods_eq
  converts rate hrate := by
    have hpos : 0 < rate := by
      obtain rfl | hcapacity := List.mem_cons.mp hrate
      · exact hload.offered.pos
      · exact (hload.capacities rate hcapacity).pos
    obtain ⟨span, hspan, -, hperiod⟩ := Pacing.exists_ofSeconds?_period hpos
    exact ⟨span, hspan, hperiod⟩
  bounds lane hlane := by
    have hperiods : lane.periods ∈ load.capacities.map fun capacity =>
        ((Pacing.period load.offeredRate).nanos, (Pacing.period capacity).nanos) :=
      h.periods_eq ▸ List.mem_map_of_mem hlane
    obtain ⟨capacity, -, heq⟩ := List.mem_map.mp hperiods
    obtain ⟨hoffers, hticker⟩ := Prod.mk.inj heq
    rw [List.forall_mem_cons, List.forall_mem_singleton, ← hoffers, ← hticker]
    exact ⟨⟨Pacing.le_period _, Pacing.period_le _⟩, ⟨Pacing.le_period _, Pacing.period_le _⟩⟩
  checks_eq := h.checks_eq.trans (checkPeriod_nanos window)

end Trial

/-! ### Accepted and refused settings -/

namespace Settings

variable {settings : Settings} {fault : Fault}

/-- An acceptable load is tried with every policy that can be made. -/
theorem tryLoad_of_acceptable (hload : settings.load.Acceptable) :
    settings.tryLoad = (settings.policy.policy.mapError Fault.policy).map fun policy =>
      (Trial.start settings.policy settings.load policy).complete.report := by
  rw [tryLoad, hload.check_eq]
  rfl

/-- A load with a fault is refused, whatever the policy. -/
theorem tryLoad_of_firstFault {loadFault : LoadFault}
    (hload : settings.load.FirstFault loadFault) : settings.tryLoad = .error loadFault.toFault := by
  rw [tryLoad, hload.check_eq]
  rfl

/-- Settings are refused for the first fault of the load, or for that of the policy if the load has
none. -/
theorem tryLoad_eq_error_iff :
    settings.tryLoad = .error fault ↔
      (∃ loadFault, settings.load.FirstFault loadFault ∧ fault = loadFault.toFault) ∨
      settings.load.Acceptable ∧ ∃ policyFault,
        settings.policy.policy = .error policyFault ∧ fault = .policy policyFault := by
  obtain hload | ⟨loadFault, hload⟩ := settings.load.acceptable_or_firstFault
  · have hno : ¬ ∃ loadFault, settings.load.FirstFault loadFault ∧ fault = loadFault.toFault := by
      rintro ⟨loadFault, hfault, -⟩
      exact hfault.not_acceptable hload
    rw [tryLoad_of_acceptable hload, or_iff_right hno, and_iff_right hload]
    cases settings.policy.policy with
    | error policyFault => simp [Except.mapError, Except.map, eq_comm]
    | ok policy => simp [Except.mapError, Except.map]
  · rw [tryLoad_of_firstFault hload, or_iff_left fun h => hload.not_acceptable h.1,
      Except.error.injEq]
    constructor
    · rintro rfl
      exact ⟨loadFault, hload, rfl⟩
    · rintro ⟨other, hother, rfl⟩
      rw [Except.error.inj (hload.check_eq.symm.trans hother.check_eq)]

/-- **Bad settings are refused, and the others are safe to try.** A trial is refused exactly if the
load is not acceptable or no policy can be made, for the first fault of the load or, if that has
none, for the first rule that the parameters of the policy break. If it is not refused, its timers
are safe at every point of every run, whatever the order of the moves. What a sender divides by the
permitted rate is turned into a span only if it is one. -/
theorem refused_or_safe (settings : Settings) :
    ((∃ fault, settings.tryLoad = .error fault) ↔
      ¬ settings.load.Acceptable ∨ ∀ policy, settings.policy.policy ≠ .ok policy) ∧
    (∀ fault, settings.tryLoad = .error fault ↔
      (∃ loadFault, settings.load.FirstFault loadFault ∧ fault = loadFault.toFault) ∨
      settings.load.Acceptable ∧ ∃ policyFault,
        Policy.FirstFault settings.policy.parameters settings.policy.window Policy.Rule.inOrder
          policyFault ∧ fault = .policy policyFault) ∧
    (∀ report, settings.tryLoad = .ok report → ∃ policy, settings.policy.policy = .ok policy ∧
      ∀ moves trial, (Trial.start settings.policy settings.load policy).run? moves = some trial →
        trial.SafelyTimed settings.load settings.policy.window) ∧
    ∀ (rate : Float) (permits : UInt32), 0 < rate →
      ¬ Pacing.longest.seconds ≤ permits.toFloat / rate →
      Span.ofSeconds? (permits.toFloat / rate) = some (Pacing.interval rate permits) := by
  refine ⟨?_, fun fault => ?_, fun report hreport => ?_, fun rate permits hrate hshort => ?_⟩
  · obtain hload | ⟨loadFault, hload⟩ := settings.load.acceptable_or_firstFault
    · rw [tryLoad_of_acceptable hload, or_iff_right (not_not_intro hload)]
      cases settings.policy.policy with
      | error policyFault => simp [Except.mapError, Except.map]
      | ok policy => simp [Except.mapError, Except.map]
    · exact iff_of_true ⟨_, tryLoad_of_firstFault hload⟩ (Or.inl hload.not_acceptable)
  · simp only [← Policy.ofParameters_eq_error_iff]
    exact tryLoad_eq_error_iff
  · obtain hload | ⟨loadFault, hload⟩ := settings.load.acceptable_or_firstFault
    · rw [tryLoad_of_acceptable hload] at hreport
      cases hpolicy : settings.policy.policy with
      | error policyFault =>
        rw [hpolicy] at hreport
        cases hreport
      | ok policy =>
        refine ⟨policy, rfl, fun moves trial hrun => ?_⟩
        rw [← PolicySettings.window_eq hpolicy]
        exact (Trial.timed_run hrun).safely hload
    · cases (tryLoad_of_firstFault hload).symm.trans hreport
  · exact Pacing.ofSeconds?_eq_some_interval hrate hshort

/-- A second under two peers. The sender of each waits half a second between two messages, the peers
take a second and half a second for one, and the supervisor checks each tenth of a second. -/
theorem refused_or_safe_two_peers :
    let settings : Settings := ⟨⟨0.9, 0.1, 5, 400⟩, ⟨2, [1, 2], 1, 1⟩, false, false⟩
    ∃ report policy, settings.tryLoad = .ok report ∧ settings.policy.policy = .ok policy ∧
      (Trial.start settings.policy settings.load policy).SafelyTimed settings.load
        settings.policy.window ∧
      (Trial.start settings.policy settings.load policy).lanes.map Lane.periods =
        [(500000000, 1000000000), (500000000, 500000000)] ∧
      (Trial.start settings.policy settings.load policy).checks.period = 100000000 ∧
      Pacing.interval 2 1 = ⟨500000000, by decide⟩ := by
  intro settings
  have haccepted : settings.tryLoad.toOption.isSome = true := by decide +kernel
  cases hreport : settings.tryLoad with
  | error fault =>
    rw [hreport] at haccepted
    cases haccepted
  | ok report =>
    obtain ⟨-, -, hsafe, hinterval⟩ := refused_or_safe settings
    obtain ⟨policy, hpolicy, hrun⟩ := hsafe report hreport
    have htimed := hrun [] _ rfl
    refine ⟨report, policy, rfl, hpolicy, htimed, ?_, ?_, ?_⟩
    · rw [htimed.periods_eq]
      decide +kernel
    · rw [htimed.checks_eq]
      decide +kernel
    · have hspan := hinterval 2 1 (by decide +kernel) (by decide +kernel)
      rw [← Option.some_inj, ← hspan]
      decide +kernel

end Settings

end FlowControl
