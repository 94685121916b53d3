import FlowControl.Proofs.Course.Limit

/-!
# The two phases of the limit

Under a tuning that passed its check a flow has no limit until the first window below the high
ratio. From then on it has one for ever, and no sequence of good windows brings it above the
double of the largest rate that was measured. The invariant names the measured rate that bounds
the limit: a contracted or adopted limit is bounded by an incoming rate, a grown one by the
outgoing rate that it was still below.
-/

namespace FlowControl

open Binary64

/-- The verdict that an event tells, if it tells of a closed window. -/
def Event.verdict? : Event → Option Verdict
  | .windowClosed _ _ verdict => some verdict
  | .tracking _ => none
  | .overloaded _ _ _ => none
  | .recovered _ _ => none

/-- The rates that verdicts are made of. -/
def measured (verdicts : List Verdict) : List Float :=
  verdicts.flatMap fun verdict => [verdict.incoming, verdict.outgoing]

/-- What the verdicts so far say about a limit: there is none while no ratio was below the high
one, and since then it is bounded by the double of a measured rate. -/
structure LimitedBy (tuning : Tuning) (closed : List Verdict) (rate : Float) : Prop where
  size_of_mem : ∀ r ∈ measured closed, ∃ q : ℚ, HasSize r q ∧ q ≤ 2 ^ 94
  unlimited : (∀ verdict ∈ closed, ¬ verdict.ratio < tuning.highRatio) → rate = unbounded
  limited : (∃ verdict ∈ closed, verdict.ratio < tuning.highRatio) →
    ∃ r ∈ measured closed, ∃ c q : ℚ, HasSize rate c ∧ HasSize r q ∧ c ≤ 2 * q

/-- Of several sizes one is the largest. -/
theorem exists_largest {rates : List Float} (hne : rates ≠ [])
    (hsize : ∀ r ∈ rates, ∃ q : ℚ, HasSize r q) : ∃ r ∈ rates, ∀ w ∈ rates, w ≤ r := by
  induction rates with
  | nil => exact absurd rfl hne
  | cons first rest ih =>
    obtain ⟨p, hp⟩ := hsize first (by simp)
    have hrefl : first ≤ first := (hp.le_iff hp).mpr le_rfl
    by_cases hrest : rest = []
    · exact ⟨first, by simp, by simpa [hrest] using hrefl⟩
    obtain ⟨r, hr, hlargest⟩ := ih hrest fun w hw => hsize w (List.mem_cons_of_mem _ hw)
    obtain ⟨q, hq⟩ := hsize r (List.mem_cons_of_mem _ hr)
    rcases le_total q p with hle | hle
    · refine ⟨first, by simp, ?_⟩
      intro w hw
      rcases List.mem_cons.mp hw with rfl | hw
      · exact hrefl
      · obtain ⟨t, ht⟩ := hsize w (List.mem_cons_of_mem _ hw)
        have hwr := hlargest w hw
        rw [ht.le_iff hq] at hwr
        exact (ht.le_iff hp).mpr (hwr.trans (WithTop.coe_le_coe.mpr hle))
    · refine ⟨r, List.mem_cons_of_mem _ hr, ?_⟩
      intro w hw
      rcases List.mem_cons.mp hw with rfl | hw
      · exact (hp.le_iff hq).mpr (WithTop.coe_le_coe.mpr hle)
      · exact hlargest w hw

/-- The double of a rate is far from too large. -/
theorem two_mul_lt_two_pow {q : ℚ} (h : q ≤ 2 ^ 94) : 2 * q < 2 ^ 1024 :=
  calc 2 * q ≤ 2 ^ 95 := by linarith
    _ < 2 ^ 1024 := pow_lt_pow_right₀ one_lt_two (by norm_num)

/-- The measured rates of two parts are those of the first part and those of the second. -/
theorem measured_append (first second : List Verdict) :
    measured (first ++ second) = measured first ++ measured second :=
  List.flatMap_append

namespace LimitedBy

variable {tuning : Tuning} {closed : List Verdict} {current incoming outgoing : Float}
  {high low factor p q : ℚ}

/-- Before any window is closed there is no limit. -/
theorem nil : LimitedBy tuning [] unbounded where
  size_of_mem := by simp [measured]
  unlimited := fun _ => rfl
  limited := by simp

/-- A limit that is bounded by verdicts has a size. -/
theorem exists_hasSize (h : LimitedBy tuning closed current) : ∃ s, HasSize current s := by
  by_cases hlow : ∃ verdict ∈ closed, verdict.ratio < tuning.highRatio
  · obtain ⟨_, _, c, _, hc, _⟩ := h.limited hlow
    exact ⟨c, hc⟩
  · refine ⟨⊤, ?_⟩
    rw [h.unlimited fun verdict hmem hlt => hlow ⟨verdict, hmem, hlt⟩]
    exact hasSize_unbounded

/-- A verdict from the high ratio on brings no limit, if there was none. -/
theorem unlimited_of_not_lt (haccepted : tuning.Accepted high low factor)
    (h : LimitedBy tuning closed current) (hp : HasSize incoming p) (hq : HasSize outgoing q)
    (hnone : ∀ verdict ∈ closed, ¬ verdict.ratio < tuning.highRatio)
    (hlt : ¬ Tuning.ratio incoming outgoing < tuning.highRatio) :
    (tuning.verdict current incoming outgoing).rate = unbounded := by
  have hcurrent := h.unlimited hnone
  have hs : HasSize current ⊤ := hcurrent ▸ hasSize_unbounded
  rcases haccepted.verdict_rate_of_not_lt hs hp hq hlt with
    hsame | ⟨habove, _⟩ | ⟨c, hc, _⟩
  · rw [hsame, hcurrent]
  · exact absurd habove not_top_lt
  · exact absurd hc.symm WithTop.coe_ne_top

/-- A verdict from the high ratio on lets no limit grow beyond the double of a measured rate. -/
theorem limited_of_not_lt (haccepted : tuning.Accepted high low factor)
    (h : LimitedBy tuning closed current) (hp : HasSize incoming p) (hq : HasSize outgoing q)
    (hq_le : q ≤ 2 ^ 94) (hlow : ∃ verdict ∈ closed, verdict.ratio < tuning.highRatio)
    (hlt : ¬ Tuning.ratio incoming outgoing < tuning.highRatio) :
    ∃ r ∈ measured closed ++ [incoming, outgoing], ∃ c q : ℚ,
      HasSize (tuning.verdict current incoming outgoing).rate c ∧ HasSize r q ∧ c ≤ 2 * q := by
  obtain ⟨r, hr, c, y, hc, hy, hle⟩ := h.limited hlow
  rcases haccepted.verdict_rate_of_not_lt hc hp hq hlt with
    hsame | ⟨_, hadopted⟩ | ⟨c', hc', hbinds, t, ht, _, ht_le⟩
  · rw [hsame]
    exact ⟨r, List.mem_append_left _ hr, c, y, hc, hy, hle⟩
  · rw [hadopted]
    exact ⟨incoming, by simp, p, p, hp, hp, by linarith [hp.representable.nonneg]⟩
  · obtain rfl : c = c' := WithTop.coe_inj.mp hc'
    have hdouble : Representable (2 * c) := hc.representable.two_mul
    rw [rounded_eq hdouble (two_mul_lt_two_pow (by linarith))] at ht_le
    lift t to ℚ using ne_top_of_le_ne_top WithTop.coe_ne_top ht_le
    have ht_le' : t ≤ 2 * c := WithTop.coe_le_coe.mp ht_le
    exact ⟨outgoing, by simp, t, q, ht, hq, by linarith⟩

/-- One more window keeps the account. -/
theorem close (haccepted : tuning.Accepted high low factor)
    (h : LimitedBy tuning closed current) (hp : HasSize incoming p) (hq : HasSize outgoing q)
    (hp_le : p ≤ 2 ^ 94) (hq_le : q ≤ 2 ^ 94) :
    LimitedBy tuning (closed ++ [tuning.verdict current incoming outgoing])
      (tuning.verdict current incoming outgoing).rate := by
  have hmeasured : measured (closed ++ [tuning.verdict current incoming outgoing]) =
      measured closed ++ [incoming, outgoing] := by
    rw [measured_append]
    simp [measured]
  constructor
  · intro r hr
    rw [hmeasured] at hr
    simp only [List.mem_append, List.mem_cons, List.not_mem_nil, or_false] at hr
    rcases hr with hr | rfl | rfl
    · exact h.size_of_mem r hr
    · exact ⟨p, hp, hp_le⟩
    · exact ⟨q, hq, hq_le⟩
  · intro hall
    have hlt : ¬ Tuning.ratio incoming outgoing < tuning.highRatio := by
      have hlast := hall (tuning.verdict current incoming outgoing) (by simp)
      rwa [Tuning.verdict_ratio] at hlast
    apply h.unlimited_of_not_lt haccepted hp hq _ hlt
    intro verdict hmem
    exact hall verdict (List.mem_append_left _ hmem)
  · intro hsome
    rw [hmeasured]
    by_cases hlt : Tuning.ratio incoming outgoing < tuning.highRatio
    · obtain ⟨r, hr, hnonneg, hle⟩ := haccepted.verdict_rate_of_lt hp hq hlt
      exact ⟨incoming, by simp, r, p, hr, hp, by linarith⟩
    · obtain ⟨verdict, hmem, hlow⟩ := hsome
      rw [List.mem_append, List.mem_singleton] at hmem
      rcases hmem with hmem | rfl
      · exact h.limited_of_not_lt haccepted hp hq hq_le ⟨verdict, hmem, hlow⟩ hlt
      · rw [Tuning.verdict_ratio] at hlow
        exact absurd hlow hlt

/-- A limit that is bounded by the double of a measured rate is bounded by that of the largest
one, also in numbers. -/
theorem le_two_mul_largest (h : LimitedBy tuning closed current)
    (hlow : ∃ verdict ∈ closed, verdict.ratio < tuning.highRatio) :
    current.isFinite = true ∧
      ∃ r ∈ measured closed, (∀ w ∈ measured closed, w ≤ r) ∧ current ≤ 2 * r := by
  obtain ⟨bound, hbound, c, b, hc, hb, hle⟩ := h.limited hlow
  refine ⟨hc.isFinite_iff.mpr WithTop.coe_ne_top, ?_⟩
  obtain ⟨r, hr, hlargest⟩ := exists_largest (List.ne_nil_of_mem hbound) fun w hw => by
    obtain ⟨q, hq, _⟩ := h.size_of_mem w hw
    exact ⟨q, hq⟩
  obtain ⟨q, hq, hq_le⟩ := h.size_of_mem r hr
  have hbq : b ≤ q := by
    have hbound_le := hlargest bound hbound
    rw [hb.le_iff hq] at hbound_le
    exact WithTop.coe_le_coe.mp hbound_le
  have hdouble : HasSize (2 * r) (2 * q : ℚ) := by
    have hmul := hasSize_two.mul hq
    rwa [rounded_eq hq.representable.two_mul (two_mul_lt_two_pow hq_le)] at hmul
  refine ⟨r, hr, hlargest, (hc.le_iff hdouble).mpr ?_⟩
  exact WithTop.coe_le_coe.mpr (by linarith)

end LimitedBy

namespace Course

/-- The verdicts on the windows that a run closes. -/
def verdicts (policy : Policy) (course : Course) (steps : List Step) : List Verdict :=
  (course.journal policy steps).filterMap Event.verdict?

variable {policy : Policy} {course : Course}

/-- A change between overloaded and not overloaded tells no verdict. -/
theorem verdicts_transition (peer : Peer) (before : Bool) (verdict : Verdict) :
    (Flow.transition peer before verdict).filterMap Event.verdict? = [] := by
  unfold Flow.transition
  split <;> rfl

/-- A judgement that closes a window tells its verdict. -/
theorem Closes.verdicts_tells (h : course.Closes policy) :
    (course.tells policy .judge).filterMap Event.verdict? = [policy.verdict course.flow] := by
  have htold := verdicts_transition course.flow.peer course.flow.overloaded
    (policy.verdict course.flow)
  simp [h.tells_judge, Event.verdict?, htold]

variable {high low factor : ℚ}

/-- Every step keeps the account of the limit. -/
theorem limitedBy_step (haccepted : policy.tuning.Accepted high low factor)
    {closed : List Verdict} (h : LimitedBy policy.tuning closed course.flow.rate) (step : Step) :
    LimitedBy policy.tuning (closed ++ (course.tells policy step).filterMap Event.verdict?)
      (course.step policy step).flow.rate := by
  obtain ⟨rfl, hcloses⟩ | hopen := closes_or_not policy course step
  · obtain ⟨s, hs⟩ := h.exists_hasSize
    have hincoming := Meter.hasSize_rate course.flow.incoming
    have houtgoing := Meter.hasSize_rate course.flow.outgoing
    have hclosed : LimitedBy policy.tuning (closed ++ [policy.verdict course.flow])
        (policy.verdict course.flow).rate :=
      h.close haccepted hincoming houtgoing (Meter.perSecondSize_le _ _)
        (Meter.perSecondSize_le _ _)
    obtain ⟨t, ht⟩ := hclosed.exists_hasSize
    rw [hcloses.verdicts_tells, hcloses.flow_step, Flow.rate_close_eq hs ht]
    exact hclosed
  · rw [tells_of_not_closes hopen, rate_step_of_not_closes hopen]
    simpa using h

/-- Every run keeps the account of the limit. -/
theorem limitedBy_run (haccepted : policy.tuning.Accepted high low factor)
    {closed : List Verdict} (h : LimitedBy policy.tuning closed course.flow.rate)
    (steps : List Step) :
    LimitedBy policy.tuning (closed ++ verdicts policy course steps)
      (course.run policy steps).flow.rate := by
  induction steps generalizing course closed with
  | nil => simpa [verdicts, journal] using h
  | cons step steps ih =>
    have hrest := ih (limitedBy_step haccepted h step)
    rwa [verdicts, journal, List.filterMap_append, ← List.append_assoc]

/-- The verdicts of a run of two parts are those of the first part and then those of the second. -/
theorem verdicts_append (first second : List Step) :
    verdicts policy course (first ++ second) =
      verdicts policy course first ++ verdicts policy (course.run policy first) second := by
  rw [verdicts, journal_append, List.filterMap_append, verdicts, verdicts]

/-- **The two phases of the limit.** Under a tuning that passed its check a new flow has no limit
exactly as long as no window was closed with a ratio below the high one. Once there was such a
window, at that point and after whatever comes later, the limit is finite and at most the double
of the largest rate that was measured in any window closed so far. -/
theorem limit_phases (policy : Policy) (peer : Peer) (millis : UInt64) {high low factor : Float}
    (hcheck : Tuning.check high low factor = .ok policy.tuning) (steps more : List Step) :
    let closed := verdicts policy (start policy peer millis)
    let rate steps := ((start policy peer millis).run policy steps).flow.rate
    (rate steps = unbounded ↔
      ∀ verdict ∈ closed steps, ¬ verdict.ratio < policy.tuning.highRatio) ∧
    ((∃ verdict ∈ closed steps, verdict.ratio < policy.tuning.highRatio) →
      (rate (steps ++ more)).isFinite = true ∧
      ∃ r ∈ measured (closed (steps ++ more)),
        (∀ w ∈ measured (closed (steps ++ more)), w ≤ r) ∧ rate (steps ++ more) ≤ 2 * r) := by
  intro closed rate
  obtain ⟨p, q, r, haccepted⟩ := Tuning.exists_accepted hcheck
  have hstart : LimitedBy policy.tuning [] (start policy peer millis).flow.rate := LimitedBy.nil
  have haccount (steps : List Step) : LimitedBy policy.tuning (closed steps) (rate steps) :=
    limitedBy_run haccepted hstart steps
  refine ⟨⟨?_, (haccount steps).unlimited⟩, ?_⟩
  · intro hunbounded verdict hmem hlow
    obtain ⟨_, _, c, _, hc, _⟩ := (haccount steps).limited ⟨verdict, hmem, hlow⟩
    rw [hunbounded] at hc
    exact WithTop.coe_ne_top (hc.unique hasSize_unbounded)
  · rintro ⟨verdict, hmem, hlow⟩
    have hlater : verdict ∈ closed (steps ++ more) := by
      have hsplit : closed (steps ++ more) = _ := verdicts_append steps more
      rw [hsplit]
      exact List.mem_append_left _ hmem
    exact (haccount (steps ++ more)).le_two_mul_largest ⟨verdict, hlater, hlow⟩

/-- A peer that acknowledged half of the messages of a second is limited to a quarter of them. -/
theorem limit_phases_half_acknowledged :
    let policy : Policy := ⟨⟨0.9, 0.1, 5⟩, .ofMillis 1000, by decide⟩
    let steps : List Step :=
      [.record .outgoing 10, .record .incoming 5, .move (.advance (.ofMillis 1000)), .judge]
    let rate := ((start policy "peer" 0).run policy steps).flow.rate
    Tuning.check 0.9 0.1 5 = .ok policy.tuning ∧
      (∃ verdict ∈ verdicts policy (start policy "peer" 0) steps,
        verdict.ratio < policy.tuning.highRatio) ∧
      rate.isFinite = true ∧ rate = 2.5 := by
  intro policy steps rate
  have hcheck : Tuning.check 0.9 0.1 5 = .ok policy.tuning := rfl
  have hlow : ∃ verdict ∈ verdicts policy (start policy "peer" 0) steps,
      verdict.ratio < policy.tuning.highRatio := by decide +kernel
  have hphases := limit_phases policy "peer" 0 hcheck steps []
  refine ⟨hcheck, hlow, ?_, by decide +kernel⟩
  exact (hphases.2 hlow).1

end Course

end FlowControl
