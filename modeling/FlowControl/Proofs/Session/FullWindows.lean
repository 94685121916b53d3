import FlowControl.Proofs.Course.Replay
import FlowControl.Proofs.Session.Life

/-!
# Whether a flow is judged by full windows

The windows of a flow are closed a window apart, and the first one a window after zero, for that
is where the last decision of a new flow stands. For a flow that is opened later, a first window
may be closed that has only just begun: flows are judged by full windows, from the moment they
are opened on, if that moment is zero and not otherwise.
-/

namespace FlowControl

/-- Moments that are at least a window apart. -/
def Policy.Spaced (policy : Policy) (times : List ℕ) : Prop :=
  times.IsChain fun earlier later => earlier + policy.window.millis.toNat ≤ later

namespace Course

/-- The readings of the clock at which a run closes windows. -/
def closeTimes (policy : Policy) : Course → List Step → List ℕ
  | _, [] => []
  | course, step :: steps =>
    List.replicate (closings (course.tells policy step)).length course.clock.now.toNat ++
      closeTimes policy (course.step policy step) steps

variable {policy : Policy} {course : Course}

/-- The times at which a run closes windows are those of its first part and then those of the
second. -/
theorem closeTimes_append (first second : List Step) :
    course.closeTimes policy (first ++ second) =
      course.closeTimes policy first ++ (course.run policy first).closeTimes policy second := by
  induction first generalizing course with
  | nil => rfl
  | cons step steps ih =>
    rw [List.cons_append, closeTimes, closeTimes, ih, List.append_assoc, run_cons]

/-- A judgement that closes a window adds the reading of the clock. -/
theorem Closes.closeTimes_cons (h : course.Closes policy) (steps : List Step) :
    course.closeTimes policy (.judge :: steps) =
      course.clock.now.toNat :: (course.step policy .judge).closeTimes policy steps := by
  rw [closeTimes, h.tells_judge, closings_judgement]
  rfl

/-- A step that closes no window adds nothing. -/
theorem closeTimes_cons_of_not_closes {step : Step} (h : step = .judge → ¬ course.Closes policy)
    (steps : List Step) :
    course.closeTimes policy (step :: steps) =
      (course.step policy step).closeTimes policy steps := by
  rw [closeTimes, tells_of_not_closes h]
  rfl

/-- Judgements close windows at the reading of the clock alone. -/
theorem closeTimes_replicate_judge (policy : Policy) (course : Course) (n : ℕ) :
    course.closeTimes policy (List.replicate n .judge) =
      List.replicate (closings (course.journal policy (List.replicate n .judge))).length
        course.clock.now.toNat := by
  induction n generalizing course with
  | zero => rfl
  | succ n ih =>
    rw [List.replicate_succ, closeTimes, ih, journal, closings_append, List.length_append,
      List.replicate_add]
    rfl

/-- The windows of a run are closed a window apart, the first one a window after the last
decision before the run. -/
theorem spaced_closeTimes (course : Course) (steps : List Step) :
    policy.Spaced (course.flow.lastDecision.toNat :: course.closeTimes policy steps) := by
  induction steps generalizing course with
  | nil => exact List.isChain_singleton _
  | cons step steps ih =>
    have hrest := ih (course.step policy step)
    obtain ⟨rfl, hcloses⟩ | hopen := closes_or_not policy course step
    · rw [hcloses.lastDecision_step] at hrest
      rw [hcloses.closeTimes_cons]
      exact List.isChain_cons_cons.mpr ⟨closes_iff.mp hcloses, hrest⟩
    · rw [closeTimes_cons_of_not_closes hopen]
      rwa [(step_eq_of_not_closes hopen).1] at hrest

end Course

namespace Session

/-- The readings of the clock at which a run closes windows of a flow. -/
def closeTimes (session : Session) (id : FlowId) : List Action → List ℕ
  | [] => []
  | action :: actions =>
    List.replicate (closings (id.told (session.judgements action))).length
        session.clock.now.toNat ++
      (session.act action).1.closeTimes id actions

/-- The clock never goes back in a run, and so it does not wrap around either. -/
def Forward (session : Session) : List Action → Prop
  | [] => True
  | action :: actions =>
    session.clock.now ≤ (session.act action).1.clock.now ∧ (session.act action).1.Forward actions

variable {session : Session} {id : FlowId} {course : Course}

/-- An action closes the windows of a flow that the steps of its course close. -/
theorem replicate_closings_judgements (h : session.course? id = some course) (action : Action) :
    List.replicate (closings (id.told (session.judgements action))).length
        session.clock.now.toNat =
      course.closeTimes session.roster.policy (session.steps id action) := by
  have hclock := (course?_eq_some_iff.mp h).2
  rw [told_judgements h, hclock]
  have hjudged (ids : List FlowId) :=
    course.closeTimes_replicate_judge session.roster.policy (ids.count id)
  cases action with
  | judge other => exact (hjudged [other]).symm
  | judgeEach flows => exact (hjudged flows).symm
  | judgeAll => exact (hjudged session.roster.trackedIds).symm
  | record other direction events =>
    by_cases heq : other = id <;> simp [steps, heq] <;> rfl
  | resetMeter other direction =>
    by_cases heq : other = id <;> simp [steps, heq] <;> rfl
  | _ => rfl

/-- The windows of a flow are closed when the run of its course closes them. -/
theorem closeTimes_eq (h : session.course? id = some course) (actions : List Action) :
    session.closeTimes id actions =
      course.closeTimes session.roster.policy (session.life id actions) := by
  induction actions generalizing session course with
  | nil => rfl
  | cons action actions ih =>
    rw [closeTimes, life, Course.closeTimes_append, replicate_closings_judgements h,
      ih (course?_act h action), act_policy]

/-- Under a clock that never goes back no window is closed before the run. -/
theorem le_of_mem_closeTimes {actions : List Action} (h : session.Forward actions) {time : ℕ}
    (hmem : time ∈ session.closeTimes id actions) : session.clock.now.toNat ≤ time := by
  induction actions generalizing session with
  | nil => cases hmem
  | cons action actions ih =>
    rw [closeTimes, List.mem_append] at hmem
    rcases hmem with hnow | hlater
    · exact (List.eq_of_mem_replicate hnow).ge
    · exact (UInt64.le_iff_toNat_le.mp h.1).trans (ih h.2 hlater)

/-- When a new flow is judged for the first time, its window is closed exactly if the clock shows a
window or more. -/
theorem closeTimes_set_judge {policy : Policy} {peer : Peer} {born : UInt64}
    (h : session.course? id = some (Course.start policy peer born))
    (hpolicy : session.roster.policy = policy) (reading : UInt64) :
    session.closeTimes id [.move (.set reading), .judge id] =
      if policy.window.millis ≤ reading then [reading.toNat] else [] := by
  have hlife : session.life id [.move (.set reading), .judge id] =
      [.move (.set reading), .judge] := by
    simp [life, steps, judged]
  have hmove : (Course.start policy peer born).closeTimes policy [.move (.set reading), .judge] =
      ((Course.start policy peer born).step policy (.move (.set reading))).closeTimes policy
        [.judge] := rfl
  rw [closeTimes_eq h, hlife, hpolicy, hmove]
  have hcloses : ((Course.start policy peer born).step policy
      (.move (.set reading))).Closes policy ↔ policy.window.millis ≤ reading := by
    rw [Course.closes_iff, UInt64.le_iff_toNat_le]
    exact Eq.to_iff (congrArg (· ≤ reading.toNat) (Nat.zero_add _))
  split_ifs with hreading
  · rw [(hcloses.mpr hreading).closeTimes_cons]
    rfl
  · exact Course.closeTimes_cons_of_not_closes (fun _ => mt hcloses.mp hreading) []

/-- After a moment that is not zero the clock shows a window before a window has passed. -/
theorem exists_early_reading (policy : Policy) (born : UInt64) :
    ∃ reading, born ≤ reading ∧ policy.window.millis ≤ reading ∧
      (born ≠ 0 → reading.toNat < born.toNat + policy.window.millis.toNat) := by
  have hwindow := policy.window_pos
  rcases UInt64.le_total born policy.window.millis with hle | hle
  · refine ⟨policy.window.millis, hle, UInt64.le_refl _, fun hzero => ?_⟩
    have hpos : born.toNat ≠ (0 : UInt64).toNat := mt UInt64.toNat_inj.mp hzero
    rw [UInt64.toNat_zero] at hpos
    omega
  · exact ⟨born, UInt64.le_refl _, hle, fun _ => by omega⟩

/-- **A flow is judged by full windows exactly if it is opened at zero.** The windows of a flow
that is opened in a session are closed a window apart and the first one a window after zero, and
under a clock that never goes back none is closed before the flow is opened. But the first
judgement of the flow closes its window as soon as the clock shows a window or more. So for every
flow that is not opened at zero there is a run in which its first window is closed too early. -/
theorem full_windows_iff (policy : Policy) (millis : UInt64) (before : List Action)
    (id : FlowId) (action : Action)
    (h : ((start policy millis).run before).1.Opens id action) :
    let session := ((start policy millis).run before).1
    let opened := (session.act action).1
    let born := session.clock.now
    (∀ more, policy.Spaced (0 :: opened.closeTimes id more)) ∧
    (∀ more, opened.Forward more → ∀ time ∈ opened.closeTimes id more, born.toNat ≤ time) ∧
    (∀ reading, opened.closeTimes id [.move (.set reading), .judge id] =
      if policy.window.millis ≤ reading then [reading.toNat] else []) ∧
    ((∀ more, opened.Forward more →
      policy.Spaced (born.toNat :: opened.closeTimes id more)) ↔ born = 0) := by
  intro session opened born
  have hpolicy : session.roster.policy = policy := run_policy before
  have hopened : opened.roster.policy = policy := (act_policy action).trans hpolicy
  have hcourse : opened.course? id = some (Course.start policy id.peer born) :=
    hpolicy ▸ Opens.course?_act h
  have hclock : opened.clock.now = born :=
    congrArg ManualClock.now (course?_eq_some_iff.mp hcourse).2
  have hspaced (more : List Action) : policy.Spaced (0 :: opened.closeTimes id more) := by
    rw [closeTimes_eq hcourse, hopened]
    exact (Course.start policy id.peer born).spaced_closeTimes (opened.life id more)
  have hfirst := closeTimes_set_judge hcourse hopened
  refine ⟨hspaced, fun more hforward time => ?_, hfirst, ?_, ?_⟩
  · rw [← hclock]
    exact le_of_mem_closeTimes hforward
  · intro hfull
    -- the run judges the flow at the first reading that shows a window, and unless `born` is zero
    -- that is too early
    obtain ⟨reading, hborn, hwindow, hsoon⟩ := exists_early_reading policy born
    have hforward : opened.Forward [.move (.set reading), .judge id] :=
      ⟨hclock ▸ hborn, UInt64.le_refl _, trivial⟩
    have hgap := hfull _ hforward
    rw [hfirst, if_pos hwindow] at hgap
    by_contra hzero
    exact absurd (List.isChain_cons_cons.mp hgap).1 (hsoon hzero).not_ge
  · intro hzero more _
    rw [hzero]
    exact hspaced more

/-- A peer that is tracked when the clock shows ten seconds may be judged too early. -/
theorem full_windows_iff_tracked_late :
    let policy : Policy := ⟨⟨0.9, 0.1, 10⟩, .ofMillis 1000, by decide⟩
    let session := ((start policy 0).run [.move (.set 10000)]).1
    let id : FlowId := ⟨"peer", 0⟩
    let opened := (session.act (.track "peer")).1
    session.Opens id (.track "peer") ∧
      ¬ ∀ more, opened.Forward more → policy.Spaced (10000 :: opened.closeTimes id more) := by
  intro policy session id opened
  have hopens : session.Opens id (.track "peer") := ⟨rfl, Or.inr ⟨rfl, rfl⟩⟩
  have hfull := full_windows_iff policy 0 [.move (.set 10000)] id (.track "peer") hopens
  refine ⟨hopens, fun hall => ?_⟩
  exact absurd (hfull.2.2.2.mp hall) (by decide)

/-- A peer that is tracked when the clock shows ten seconds and judged at once is judged by a
window in which one message was sent and no time has passed. -/
theorem first_window_not_full :
    let policy : Policy := ⟨⟨0.9, 0.1, 10⟩, .ofMillis 1000, by decide⟩
    let id : FlowId := ⟨"peer", 0⟩
    let opened := ((start policy 10000).act (.track "peer")).1
    let more : List Action := [.record id .outgoing 1, .judge id]
    (start policy 10000).Opens id (.track "peer") ∧ opened.Forward more ∧
      opened.closeTimes id more = [10000] ∧
      ¬ policy.Spaced (10000 :: opened.closeTimes id more) := by
  intro policy id opened more
  have htimes : opened.closeTimes id more = [10000] := by decide +kernel
  refine ⟨⟨rfl, Or.inr ⟨rfl, rfl⟩⟩, ⟨UInt64.le_refl _, UInt64.le_refl _, trivial⟩, htimes, ?_⟩
  rw [htimes]
  unfold Policy.Spaced
  decide

end Session

end FlowControl
