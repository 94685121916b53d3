import FlowControl.Proofs.Binary64.Value
import FlowControl.Proofs.Flow.Law

/-!
# The envelope of the control law

What a verdict may ask for, by what the window shows. A peer to which nothing was sent keeps its
limit or gets a higher one, a peer that keeps up keeps its limit or gets at most twice as much, and
a peer that falls behind gets no more than what it acknowledges. The three exclude each other, and
they hold of all rates that are not negative, also where a quotient or a sum is too large for a
number or its last places are cut off.
-/

namespace FlowControl

open Binary64

namespace Verdict

/-- Nothing was sent to the peer: it is not overloaded, and the limit is the larger one of the limit
before and what the peer acknowledges. -/
structure IsIdle (verdict : Verdict) (current : Float) : Prop where
  outgoing_eq : (verdict.outgoing == 0) = true
  not_overloaded : verdict.overloaded = false
  rate_eq : verdict.rate = max verdict.incoming current

/-- The peer keeps up: it is not overloaded, and the limit stays or grows to at most twice its size.
It stays if no more was sent than it permits. -/
structure KeepsUp (verdict : Verdict) (tuning : Tuning) (current : Float) : Prop where
  outgoing_pos : 0 < verdict.outgoing
  ratio_eq : verdict.ratio = verdict.incoming / verdict.outgoing
  high_le : tuning.highRatio ≤ verdict.ratio
  not_overloaded : verdict.overloaded = false
  le_rate : current ≤ verdict.rate
  rate_le : verdict.rate ≤ 2 * current
  rate_eq : verdict.outgoing ≤ current → verdict.rate = current

/-- The peer falls behind: it acknowledges less than what is sent, the limit is at most what it
acknowledges, and it is overloaded from the low ratio down. -/
structure FallsBehind (verdict : Verdict) (tuning : Tuning) : Prop where
  ratio_eq : verdict.ratio = verdict.incoming / verdict.outgoing
  ratio_lt : verdict.ratio < tuning.highRatio
  incoming_lt : verdict.incoming < verdict.outgoing
  rate_nonneg : 0 ≤ verdict.rate
  rate_le : verdict.rate ≤ verdict.incoming
  overloaded_iff : verdict.overloaded = true ↔ verdict.ratio ≤ tuning.lowRatio

end Verdict

namespace Tuning

variable {tuning : Tuning} {current incoming outgoing : Float} {s : WithTop ℚ}
  {c p q high low factor : ℚ}

/-! ### The ratio -/

/-- If something was sent, the ratio is the quotient of the rates. -/
theorem ratio_of_pos (h : 0 < outgoing) : ratio incoming outgoing = incoming / outgoing :=
  if_pos h

/-- To a peer that falls behind something was sent, and it acknowledges less. -/
theorem Accepted.lt_of_ratio_lt (h : Accepted tuning high low factor)
    (hp : HasValue incoming p) (hq : HasValue outgoing q)
    (hlt : ratio incoming outgoing < tuning.highRatio) : 0 < q ∧ p < q := by
  have hhigh := h.hasSize_high.hasValue
  have hone : ¬ (1 : WithTop ℚ) < high := not_lt.mpr (WithTop.coe_le_coe.mpr h.high_le_one)
  have hpos : 0 < q := by
    by_contra hzero
    have hnone : ¬ 0 < outgoing := by
      rw [hasSize_zero.hasValue.lt_iff hq]
      exact mt WithTop.coe_lt_coe.mp hzero
    rw [ratio, if_neg hnone, hasSize_one.hasValue.lt_iff hhigh] at hlt
    exact hone hlt
  refine ⟨hpos, ?_⟩
  by_contra hle
  have hsent : 0 < outgoing :=
    (hasSize_zero.hasValue.lt_iff hq).mpr (WithTop.coe_lt_coe.mpr hpos)
  rw [ratio_of_pos hsent, (hp.div hq hpos).lt_iff hhigh] at hlt
  have hquotient : 1 ≤ rounded (p / q) :=
    le_rounded .one (one_lt_pow₀ one_lt_two (by norm_num))
      ((one_le_div hpos).mpr (not_lt.mp hle))
  exact hone (hquotient.trans_lt hlt)

/-! ### The rate -/

/-- A rate times a share of at most one is no more than the rate. -/
theorem exists_hasValue_mul_le {share : Float} (hp : HasValue incoming p)
    (hs : HasValue share s) (hle : s ≤ 1) :
    ∃ r : ℚ, HasValue (incoming * share) r ∧ r ≤ p := by
  lift s to ℚ using ne_top_of_le_ne_top WithTop.one_ne_top hle
  have hp_nonneg := hp.representable.nonneg
  have hproduct : p * s ≤ p :=
    mul_le_of_le_one_right hp_nonneg (WithTop.coe_le_coe.mp hle)
  have hmul := hp.mul hs
  have hrounded := rounded_le hp.representable hp.lt_two_pow
    (mul_nonneg hp_nonneg hs.representable.nonneg) hproduct
  generalize rounded (p * s) = t at hmul hrounded
  lift t to ℚ using ne_top_of_le_ne_top WithTop.coe_ne_top hrounded
  exact ⟨t, hmul, WithTop.coe_le_coe.mp hrounded⟩

/-- A limit that grows by its share grows to no more than twice its value, also where the limit is
a zero whose sign bit is set. -/
theorem Accepted.exists_hasValue_grown (h : Accepted tuning high low factor)
    (hc : HasValue current c) :
    ∃ t, HasValue (current + current / tuning.factor) t ∧ (c : WithTop ℚ) ≤ t ∧
      t ≤ rounded (2 * c) := by
  by_cases hzero : c = 0
  · subst hzero
    have hshare := hc.div h.hasSize_factor.hasValue (zero_lt_one.trans_le h.one_le_factor)
    rw [zero_div, rounded_zero] at hshare
    have hsum := hc.add hshare
    rw [add_zero, rounded_zero] at hsum
    refine ⟨0, hsum, le_rfl, ?_⟩
    rw [mul_zero, rounded_zero]
  · obtain ⟨t, ht, hle, ht_le⟩ :=
      h.exists_hasSize_grown (hc.hasSize (mt WithTop.coe_eq_zero.mp hzero))
    exact ⟨t, ht.hasValue, hle, ht_le⟩

/-- Twice a limit, which is infinite if the limit is. -/
theorem exists_hasValue_two_mul (hs : HasValue current s) :
    ∃ t, HasValue (2 * current) t ∧ (s = ⊤ → t = ⊤) ∧ ∀ c : ℚ, s = c → t = rounded (2 * c) := by
  by_cases htop : s = ⊤
  · obtain rfl : current = unbounded :=
      (hs.hasSize (htop ▸ WithTop.top_ne_zero)).eq_of_eq hasSize_unbounded htop
    have htwice : 2 * unbounded = unbounded := by decide +kernel
    refine ⟨⊤, htwice ▸ hasSize_unbounded.hasValue, fun _ => rfl, fun c hc => ?_⟩
    exact absurd (htop.symm.trans hc) WithTop.top_ne_coe
  · lift s to ℚ using htop
    refine ⟨_, hasSize_two.hasValue.mul hs, fun h => absurd h WithTop.coe_ne_top, fun c hc => ?_⟩
    rw [WithTop.coe_inj.mp hc]

/-- A value is no more than twice itself. -/
theorem le_two_mul {t : WithTop ℚ} (hs : HasValue current s) (htop : s = ⊤ → t = ⊤)
    (htwice : ∀ c : ℚ, s = c → t = rounded (2 * c)) : s ≤ t := by
  by_cases hinfinite : s = ⊤
  · rw [htop hinfinite]
    exact le_top
  · lift s to ℚ using hinfinite
    rw [htwice s rfl]
    exact le_rounded hs.representable hs.lt_two_pow (by linarith [hs.representable.nonneg])

/-- The limit that a peer that keeps up is left with. -/
theorem relax_of_not_binding (h : ¬ current < outgoing) (hne : ¬ (outgoing == 0) = true) :
    tuning.relax current incoming outgoing = current := by
  rw [relax, if_neg (fun hgrow => h hgrow.2), if_neg (fun hadopt => hne hadopt.1)]

/-! ### The three verdicts -/

/-- The verdict on a peer to which nothing was sent. -/
theorem Accepted.isIdle (h : Accepted tuning high low factor) (hs : HasValue current s)
    (hp : HasValue incoming p) (hq : HasValue outgoing q) (hzero : q = 0) :
    (tuning.verdict current incoming outgoing).IsIdle current := by
  have hidle : (outgoing == 0) = true :=
    (hq.beq_iff hasSize_zero.hasValue).mpr (WithTop.coe_eq_zero.mpr hzero)
  have hnone : ¬ 0 < outgoing := by
    rw [hasSize_zero.hasValue.lt_iff hq, hzero]
    exact lt_irrefl _
  have hkeeps : tuning.highRatio ≤ ratio incoming outgoing := by
    rw [ratio, if_neg hnone, h.hasSize_high.le_iff hasSize_one]
    exact WithTop.coe_le_coe.mpr h.high_le_one
  have hslack : ¬ current < outgoing := by
    rw [hs.lt_iff hq, hzero]
    exact not_lt.mpr hs.nonneg
  rw [verdict_of_le hkeeps]
  refine ⟨hidle, rfl, ?_⟩
  change tuning.relax current incoming outgoing = if incoming ≤ current then current else incoming
  rw [relax, if_neg (fun hgrow => hslack hgrow.2)]
  by_cases hadopt : current < incoming
  · have hmore : ¬ incoming ≤ current := by
      rw [hp.le_iff hs, not_le]
      exact (hs.lt_iff hp).mp hadopt
    rw [if_pos ⟨hidle, hadopt⟩, if_neg hmore]
  · have hless : incoming ≤ current := by
      rw [hp.le_iff hs, ← not_lt]
      exact mt (hs.lt_iff hp).mpr hadopt
    rw [if_neg (fun hadopt' => hadopt hadopt'.2), if_pos hless]

/-- The verdict on a peer that keeps up. -/
theorem Accepted.keepsUp (h : Accepted tuning high low factor) (hs : HasValue current s)
    (hq : HasValue outgoing q) (hpos : 0 < q)
    (hhigh : tuning.highRatio ≤ ratio incoming outgoing) :
    (tuning.verdict current incoming outgoing).KeepsUp tuning current := by
  have hsent : 0 < outgoing :=
    (hasSize_zero.hasValue.lt_iff hq).mpr (WithTop.coe_lt_coe.mpr hpos)
  have hne : ¬ (outgoing == 0) = true := by
    rw [hq.beq_iff hasSize_zero.hasValue]
    exact mt WithTop.coe_eq_zero.mp hpos.ne'
  obtain ⟨t, ht, htop, htwice⟩ := exists_hasValue_two_mul hs
  have hstays {x : Float} (hx : x = current) : current ≤ x ∧ x ≤ 2 * current := by
    rw [hx]
    exact ⟨(hs.le_iff hs).mpr le_rfl, (hs.le_iff ht).mpr (le_two_mul hs htop htwice)⟩
  have hrate : current ≤ tuning.relax current incoming outgoing ∧
      tuning.relax current incoming outgoing ≤ 2 * current := by
    by_cases hbinds : current < outgoing
    · have hfinite : s ≠ ⊤ := ((hs.lt_iff hq).mp hbinds).ne_top
      rw [relax, if_pos ⟨hs.isFinite_iff.mpr hfinite, hbinds⟩]
      lift s to ℚ using hfinite
      obtain ⟨g, hg, hle, hg_le⟩ := h.exists_hasValue_grown hs
      rw [hs.le_iff hg, hg.le_iff ht, htwice s rfl]
      exact ⟨hle, hg_le⟩
    · exact hstays (relax_of_not_binding hbinds hne)
  rw [verdict_of_le hhigh]
  refine ⟨hsent, ratio_of_pos hsent, hhigh, rfl, hrate.1, hrate.2, fun hslack => ?_⟩
  refine relax_of_not_binding ?_ hne
  rw [hs.lt_iff hq, not_lt]
  exact (hq.le_iff hs).mp hslack

/-- The verdict on a peer that falls behind. -/
theorem Accepted.fallsBehind (h : Accepted tuning high low factor)
    (hp : HasValue incoming p) (hq : HasValue outgoing q)
    (hlt : ratio incoming outgoing < tuning.highRatio) :
    (tuning.verdict current incoming outgoing).FallsBehind tuning := by
  obtain ⟨hpos, hless⟩ := h.lt_of_ratio_lt hp hq hlt
  have hsent : 0 < outgoing :=
    (hasSize_zero.hasValue.lt_iff hq).mpr (WithTop.coe_lt_coe.mpr hpos)
  have hratio : HasValue (ratio incoming outgoing) (rounded (p / q)) := by
    rw [ratio_of_pos hsent]
    exact hp.div hq hpos
  have hbelow := (hratio.lt_iff h.hasSize_high.hasValue).mp hlt
  have hnot : ¬ tuning.highRatio ≤ ratio incoming outgoing := by
    rw [h.hasSize_high.hasValue.le_iff hratio, not_le]
    exact hbelow
  obtain ⟨r, hr, hr_le⟩ := exists_hasValue_mul_le hp hratio
    (hbelow.le.trans (WithTop.coe_le_coe.mpr h.high_le_one))
  rw [verdict_of_not_le hnot]
  refine ⟨ratio_of_pos hsent, hlt, ?_, ?_, ?_, decide_eq_true_iff⟩
  · exact (hp.lt_iff hq).mpr (WithTop.coe_lt_coe.mpr hless)
  · exact (hasSize_zero.hasValue.le_iff hr).mpr hr.nonneg
  · exact (hr.le_iff hp).mpr (WithTop.coe_le_coe.mpr hr_le)

/-- **The envelope of the control law.** For every tuning that passed its check, every limit that is
not negative, infinite or not, and all finite rates that are not negative, a verdict is of exactly
one of three kinds: nothing was sent, the peer keeps up, or it falls behind. Its rate is always a
number, and a peer that is overloaded acknowledges less than what is sent and is limited to no more
than what it acknowledges. -/
theorem verdict_envelope {x y z : Float} (hcheck : check x y z = .ok tuning)
    (hcurrent : 0 ≤ current) (hincoming : 0 ≤ incoming) (hincoming' : incoming.isFinite = true)
    (houtgoing : 0 ≤ outgoing) (houtgoing' : outgoing.isFinite = true) :
    let verdict := tuning.verdict current incoming outgoing
    verdict.incoming = incoming ∧ verdict.outgoing = outgoing ∧
    (verdict.IsIdle current ∧ ¬ verdict.KeepsUp tuning current ∧ ¬ verdict.FallsBehind tuning ∨
      ¬ verdict.IsIdle current ∧ verdict.KeepsUp tuning current ∧ ¬ verdict.FallsBehind tuning ∨
      ¬ verdict.IsIdle current ∧ ¬ verdict.KeepsUp tuning current ∧ verdict.FallsBehind tuning) ∧
    verdict.rate.isNaN = false ∧
    (verdict.overloaded = true → verdict.rate ≤ incoming ∧ incoming < outgoing) := by
  intro verdict
  obtain ⟨_, _, _, h⟩ := exists_accepted hcheck
  obtain ⟨s, hs⟩ := exists_hasValue_of_nonneg hcurrent
  obtain ⟨p, hp⟩ := exists_hasValue_of_nonneg hincoming
  obtain ⟨q, hq⟩ := exists_hasValue_of_nonneg houtgoing
  lift p to ℚ using hp.isFinite_iff.mp hincoming'
  lift q to ℚ using hq.isFinite_iff.mp houtgoing'
  have hin : verdict.incoming = incoming := verdict_incoming
  have hout : verdict.outgoing = outgoing := verdict_outgoing
  have hratio : verdict.ratio = ratio incoming outgoing := verdict_ratio
  have hidle_iff : (verdict.outgoing == 0) = true ↔ q = 0 := by
    rw [hout, hq.beq_iff hasSize_zero.hasValue]
    exact WithTop.coe_eq_zero
  have hpos_iff : 0 < verdict.outgoing ↔ 0 < q := by
    rw [hout, hasSize_zero.hasValue.lt_iff hq]
    exact WithTop.coe_lt_coe
  have hbehind_pos (hbehind : verdict.FallsBehind tuning) : 0 < q :=
    (h.lt_of_ratio_lt hp hq (hratio ▸ hbehind.ratio_lt)).1
  have hquotient (hpos : 0 < q) : HasValue verdict.ratio (rounded (p / q)) := by
    rw [hratio, ratio_of_pos (hout ▸ hpos_iff.mpr hpos)]
    exact hp.div hq hpos
  have hexclusive (hkeeps : verdict.KeepsUp tuning current)
      (hbehind : verdict.FallsBehind tuning) : False := by
    have hratio := hquotient (hbehind_pos hbehind)
    have hle := (h.hasSize_high.hasValue.le_iff hratio).mp hkeeps.high_le
    exact not_lt.mpr hle ((hratio.lt_iff h.hasSize_high.hasValue).mp hbehind.ratio_lt)
  refine ⟨hin, hout, ?_⟩
  rcases hq.representable.nonneg.eq_or_lt with hzero | hpos
  · have hidle : verdict.IsIdle current := h.isIdle hs hp hq hzero.symm
    refine ⟨Or.inl ⟨hidle, fun hkeeps => ?_, fun hbehind => ?_⟩, ?_, fun hover => ?_⟩
    · exact (hpos_iff.mp hkeeps.outgoing_pos).ne hzero
    · exact (hbehind_pos hbehind).ne hzero
    · rw [hidle.rate_eq, hin]
      change (if incoming ≤ current then current else incoming).isNaN = false
      split_ifs
      · exact hs.isNaN_eq
      · exact hp.isNaN_eq
    · exact absurd hover (by rw [hidle.not_overloaded]; exact Bool.false_ne_true)
  have hbusy (hidle : verdict.IsIdle current) : False := hpos.ne' (hidle_iff.mp hidle.outgoing_eq)
  by_cases hhigh : tuning.highRatio ≤ ratio incoming outgoing
  · have hkeeps : verdict.KeepsUp tuning current := h.keepsUp hs hq hpos hhigh
    refine ⟨Or.inr (Or.inl ⟨hbusy, hkeeps, hexclusive hkeeps⟩), ?_, fun hover => ?_⟩
    · exact isNaN_of_le hkeeps.le_rate
    · exact absurd hover (by rw [hkeeps.not_overloaded]; exact Bool.false_ne_true)
  · have hlt : verdict.ratio < tuning.highRatio := by
      rw [(hquotient hpos).lt_iff h.hasSize_high.hasValue, ← not_le,
        ← h.hasSize_high.hasValue.le_iff (hquotient hpos)]
      exact fun hle => hhigh (hratio ▸ hle)
    have hbehind : verdict.FallsBehind tuning := h.fallsBehind hp hq (hratio ▸ hlt)
    refine ⟨Or.inr (Or.inr ⟨hbusy, fun hkeeps => hexclusive hkeeps hbehind, hbehind⟩), ?_, ?_⟩
    · exact isNaN_of_le hbehind.rate_nonneg
    · intro _
      rw [← hin, ← hout]
      exact ⟨hbehind.rate_le, hbehind.incoming_lt⟩

/-- A limit may grow so much that it is infinite, and then twice the limit is as well. -/
theorem verdict_envelope_overflow :
    let tuning : Tuning := ⟨0.9, 0.1, 1⟩
    let verdict := tuning.verdict 1.7e308 1.75e308 1.75e308
    check 0.9 0.1 1 = .ok tuning ∧ (0 : Float) ≤ 1.7e308 ∧ (0 : Float) ≤ 1.75e308 ∧
      (1.75e308 : Float).isFinite = true ∧ verdict.rate = unbounded ∧
      verdict.KeepsUp tuning 1.7e308 := by
  intro tuning verdict
  have hcheck : check 0.9 0.1 1 = .ok tuning := rfl
  have hcurrent : (0 : Float) ≤ 1.7e308 := by decide +kernel
  have hrate : (0 : Float) ≤ 1.75e308 := by decide +kernel
  have hfinite : (1.75e308 : Float).isFinite = true := by decide +kernel
  have hsent : ¬ (verdict.outgoing == 0) = true := by decide +kernel
  have hshare : ¬ verdict.ratio < tuning.highRatio := by decide +kernel
  refine ⟨hcheck, hcurrent, hrate, hfinite, by decide +kernel, ?_⟩
  obtain ⟨-, -, hidle | hkeeps | hbehind, -⟩ :=
    verdict_envelope hcheck hcurrent hrate hfinite hrate hfinite
  · exact absurd hidle.1.outgoing_eq hsent
  · exact hkeeps.2.1
  · exact absurd hbehind.2.2.ratio_lt hshare

end Tuning

end FlowControl
