import FlowControl.Proofs.Dictionary.Extensional
import FlowControl.Proofs.Session.Life

/-!
# Flows that are judged together

A flow that has just been judged is settled: at this reading of the clock its window is open, and
to judge it again does nothing. To judge one flow and to judge another one commute. So when a list
of flows is judged, only which flows are in it decides what becomes of them, and the order in which
they are named first decides in which order the judgements are told. A flow stays settled until the
clock moves, whatever else happens in between.
-/

namespace FlowControl

namespace Policy

variable {policy : Policy}

/-- A flow that was judged is not due at the same reading of the clock. -/
theorem not_isDue_judge (now : UInt64) (flow : Flow) :
    ¬ (policy.judge now flow).1.isDue policy.window now = true := by
  by_cases hdue : flow.isDue policy.window now = true
  · rw [judge_of_isDue hdue, Flow.isDue_iff]
    have hlast : (flow.close now (policy.verdict flow)).lastDecision = now := rfl
    have hwindow := policy.window_pos
    rw [hlast]
    omega
  · rwa [judge_of_not_isDue hdue]

end Policy

/-- Only what is done to the flow with the number matters. -/
theorem PeerFlows.modify_congr {flows : PeerFlows} {number : Nat} {f g : Flow → Flow}
    (h : ∀ flow, flows.opened[number]? = some flow → f flow = g flow) :
    flows.modify number f = flows.modify number g := by
  have hopened : flows.opened.modify number f = flows.opened.modify number g := by
    apply List.ext_getElem?
    intro n
    rw [List.getElem?_modify, List.getElem?_modify]
    by_cases hn : number = n
    · subst hn
      cases hflow : flows.opened[number]? with
      | none => rfl
      | some flow => simp [h flow hflow]
    · simp [hn]
  rw [modify, modify, hopened]

/-- To change a flow into itself changes nothing. -/
theorem PeerFlows.modify_eq_self {flows : PeerFlows} {number : Nat} {f : Flow → Flow}
    (h : ∀ flow, flows.opened[number]? = some flow → f flow = flow) :
    flows.modify number f = flows :=
  (modify_congr (g := id) h).trans (by rw [modify, List.modify_id])

namespace Roster

variable {roster other : Roster} {now : UInt64} {id a b : FlowId}

/-- Rosters with the same policy and the same flows to every peer that they know are equal. -/
theorem ext_peers (hpolicy : roster.policy = other.policy)
    (hpeers : ∀ peer, roster.peers.get? peer = other.peers.get? peer) : roster = other := by
  obtain ⟨_, _⟩ := roster
  obtain ⟨_, _⟩ := other
  cases hpolicy
  cases Dictionary.ext_get? hpeers
  rfl

/-- A flow is there if its peer is known and has a flow with its number. -/
theorem flow?_eq (roster : Roster) (id : FlowId) :
    roster.flow? id = (roster.peers.get? id.peer).bind fun flows => flows.opened[id.number]? := by
  rw [flow?, flowsTo]
  cases roster.peers.get? id.peer <;> rfl

/-- What judging a flow does to the flows of the peers. -/
theorem peers_judge (roster : Roster) (now : UInt64) (id : FlowId) (peer : Peer) :
    (roster.judge now id).1.peers.get? peer =
      if peer = id.peer then
        (roster.peers.get? peer).map
          (·.modify id.number fun flow => (roster.policy.judge now flow).1)
      else roster.peers.get? peer := by
  have hflow := roster.flow?_eq id
  unfold judge
  split
  · next hnone =>
    -- the flow is not there, so nothing is done to the flows of its peer either
    split
    · next hpeer =>
      subst hpeer
      cases hflows : roster.peers.get? id.peer with
      | none => rfl
      | some flows =>
        rw [hnone, hflows] at hflow
        refine (congrArg some (PeerFlows.modify_eq_self fun flow hget => ?_)).symm
        exact absurd (hflow.trans hget) (Option.some_ne_none flow).symm
    · rfl
  · next flow hsome =>
    refine (Dictionary.get?_insert _ _ _ _).trans ?_
    split
    · next hpeer =>
      subst hpeer
      cases hflows : roster.peers.get? id.peer with
      | none => simp [hsome, hflows] at hflow
      | some flows =>
        rw [hsome, hflows] at hflow
        have hto : roster.flowsTo id.peer = flows := by rw [flowsTo, hflows]; rfl
        rw [hto, Option.map_some]
        refine congrArg some (PeerFlows.modify_congr fun flow' hget => ?_)
        obtain rfl : flow = flow' := Option.some_inj.mp (hflow.trans hget)
        rfl
    · rfl

/-- To judge one flow and to judge another one commute. -/
theorem judge_comm (roster : Roster) (now : UInt64) (a b : FlowId) :
    ((roster.judge now a).1.judge now b).1 = ((roster.judge now b).1.judge now a).1 := by
  refine ext_peers (by simp) fun peer => ?_
  simp only [peers_judge, judge_policy]
  by_cases ha : peer = a.peer <;> by_cases hb : peer = b.peer
  · simp only [if_pos ha, if_pos hb, Option.map_map]
    refine congrArg (Option.map · _) (funext fun flows => ?_)
    by_cases hnumber : a.number = b.number
    · simp only [Function.comp_def, hnumber]
    · simp only [Function.comp_def, PeerFlows.modify, List.modify_modify_ne _ _ _ hnumber]
  · simp only [if_pos ha, if_neg hb]
  · simp only [if_neg ha, if_pos hb]
  · simp only [if_neg ha, if_neg hb]

/-- Another flow is judged as it would have been before. -/
theorem judge_snd_of_ne (h : b ≠ a) :
    ((roster.judge now a).1.judge now b).2 = (roster.judge now b).2 := by
  rw [judge_snd, judge_snd, flow?_judge, if_neg h, judge_policy]

/-- A flow is settled at a reading of the clock if judging it does nothing. -/
def Settled (roster : Roster) (now : UInt64) (id : FlowId) : Prop :=
  roster.judge now id = (roster, [])

/-- A flow that is not there is settled, and so is one whose window is open. -/
theorem settled_of_forall
    (h : ∀ flow, roster.flow? id = some flow → ¬ flow.isDue roster.policy.window now = true) :
    roster.Settled now id := by
  have htold : (roster.judge now id).2 = [] := by
    rw [judge_snd]
    cases hflow : roster.flow? id with
    | none => rfl
    | some flow => rw [Option.map_some, Policy.judge_of_not_isDue (h flow hflow), Option.getD_some]
  refine Prod.ext (ext_peers judge_policy fun peer => ?_) htold
  rw [peers_judge]
  split
  · next hpeer =>
    subst hpeer
    cases hflows : roster.peers.get? id.peer with
    | none => rfl
    | some flows =>
      refine congrArg some (PeerFlows.modify_eq_self fun flow hget => ?_)
      have hflow : roster.flow? id = some flow := by rw [flow?_eq, hflows]; exact hget
      rw [Policy.judge_of_not_isDue (h flow hflow)]
  · rfl

/-- Exactly the flows that are there and due are not settled. -/
theorem settled_iff : roster.Settled now id ↔
    ∀ flow, roster.flow? id = some flow → ¬ flow.isDue roster.policy.window now = true := by
  refine ⟨fun hsettled flow hflow hdue => ?_, settled_of_forall⟩
  have htold : (roster.judge now id).2 = [] := congrArg Prod.snd hsettled
  rw [judge_snd, hflow, Option.map_some, Policy.judge_of_isDue hdue] at htold
  exact List.cons_ne_nil _ _ htold

/-- A flow that was judged is settled. -/
theorem settled_judge (roster : Roster) (now : UInt64) (id : FlowId) :
    (roster.judge now id).1.Settled now id := by
  apply settled_of_forall
  intro judged hjudged
  rw [flow?_judge, if_pos rfl] at hjudged
  obtain ⟨flow, -, rfl⟩ := Option.map_eq_some_iff.mp hjudged
  rw [judge_policy]
  exact Policy.not_isDue_judge now flow

/-- A settled flow stays settled when flows are judged. -/
theorem Settled.judge (h : roster.Settled now a) (b : FlowId) :
    (roster.judge now b).1.Settled now a := by
  by_cases heq : a = b
  · subst heq
    exact settled_judge roster now a
  · refine Prod.ext ?_ ?_
    · rw [judge_comm, h]
    · rw [judge_snd_of_ne heq, h]

/-- A settled flow stays settled while others are judged. -/
theorem Settled.judgeEach (h : roster.Settled now a) (ids : List FlowId) :
    (roster.judgeEach now ids).1.Settled now a := by
  induction ids generalizing roster with
  | nil => exact h
  | cons id ids ih => exact ih (h.judge id)

/-- All flows of a list are settled after they were judged. -/
theorem settled_judgeEach {ids : List FlowId} (h : id ∈ ids) :
    (roster.judgeEach now ids).1.Settled now id := by
  induction ids generalizing roster with
  | nil => cases h
  | cons first ids ih =>
    rcases List.mem_cons.mp h with rfl | hrest
    · exact (settled_judge roster now id).judgeEach ids
    · exact ih hrest

/-- To judge settled flows does nothing. -/
theorem judgeEach_of_settled {ids : List FlowId} (h : ∀ id ∈ ids, roster.Settled now id) :
    roster.judgeEach now ids = (roster, []) := by
  induction ids with
  | nil => rfl
  | cons id ids ih =>
    obtain ⟨hfirst, hrest⟩ := List.forall_mem_cons.mp h
    rw [judgeEach, hfirst]
    dsimp only
    rw [ih hrest]
    rfl

/-- What becomes of the roster when flows are judged one after the other. -/
theorem judgeEach_fst (ids : List FlowId) :
    (roster.judgeEach now ids).1 = ids.foldl (fun roster id => (roster.judge now id).1) roster := by
  induction ids generalizing roster with
  | nil => rfl
  | cons id ids ih => exact ih

/-- The order of the flows does not matter for what becomes of them. -/
theorem judgeEach_perm {ids ids' : List FlowId} (h : ids.Perm ids') :
    (roster.judgeEach now ids).1 = (roster.judgeEach now ids').1 := by
  rw [judgeEach_fst, judgeEach_fst]
  exact h.foldl_eq' (fun a _ b _ roster => judge_comm roster now a b) roster

/-- A settled flow may be left out. -/
theorem judgeEach_filter (h : roster.Settled now a) (ids : List FlowId) :
    (roster.judgeEach now (ids.filter fun id => !id == a)).1 = (roster.judgeEach now ids).1 ∧
      roster.judgements now (ids.filter fun id => !id == a) = roster.judgements now ids := by
  induction ids generalizing roster with
  | nil => exact ⟨rfl, rfl⟩
  | cons id ids ih =>
    by_cases heq : id = a
    · subst heq
      rw [List.filter_cons_of_neg (by simp), judgeEach, judgements, h]
      exact ih h
    · rw [List.filter_cons_of_pos (by simpa using heq)]
      obtain ⟨hroster, htold⟩ := ih (h.judge id)
      exact ⟨hroster, congrArg ((roster.judge now id).2.map (id, ·) ++ ·) htold⟩

/-- A flow that is named repeatedly is judged where it is named first. -/
theorem judgeEach_eraseDups (roster : Roster) (now : UInt64) (ids : List FlowId) :
    (roster.judgeEach now ids.eraseDups).1 = (roster.judgeEach now ids).1 ∧
      roster.judgements now ids.eraseDups = roster.judgements now ids := by
  cases ids with
  | nil => exact ⟨rfl, rfl⟩
  | cons id ids =>
    obtain ⟨hroster, htold⟩ :=
      judgeEach_eraseDups (roster.judge now id).1 now (ids.filter fun other => !other == id)
    obtain ⟨hroster', htold'⟩ := judgeEach_filter (settled_judge roster now id) ids
    rw [List.eraseDups_cons]
    refine ⟨hroster.trans hroster', ?_⟩
    exact congrArg ((roster.judge now id).2.map (id, ·) ++ ·) (htold.trans htold')
termination_by ids.length
decreasing_by exact Nat.lt_succ_of_le (List.length_filter_le _ _)

/-- Different flows that are judged one after the other tell what each of them would tell alone. -/
theorem judgements_of_nodup {ids : List FlowId} (h : ids.Nodup) :
    roster.judgements now ids = ids.flatMap fun id => (roster.judge now id).2.map (id, ·) := by
  induction ids generalizing roster with
  | nil => rfl
  | cons id ids ih =>
    obtain ⟨hnew, hrest⟩ := List.nodup_cons.mp h
    rw [judgements, ih hrest, List.flatMap_cons]
    refine congrArg _ (List.flatMap_congr fun other hother => ?_)
    rw [judge_snd_of_ne (ne_of_mem_of_not_mem hother hnew)]

end Roster

/-- The first mentions in a list are all different. -/
theorem nodup_eraseDups {α : Type} [DecidableEq α] (l : List α) : l.eraseDups.Nodup := by
  cases l with
  | nil => exact List.nodup_nil
  | cons a l =>
    rw [List.eraseDups_cons, List.nodup_cons]
    constructor
    · simp [List.mem_eraseDups]
    · exact nodup_eraseDups (l.filter fun b => !b == a)
termination_by l.length
decreasing_by exact Nat.lt_succ_of_le (List.length_filter_le _ _)

namespace Course

variable {policy : Policy} {course : Course}

/-- As long as the clock does not move no step comes to the end of a window. -/
theorem not_closes_step (h : ¬ course.Closes policy) {step : Step}
    (hstill : ∀ move, step ≠ .move move) : ¬ (course.step policy step).Closes policy := by
  cases step with
  | move move => exact absurd rfl (hstill move)
  | record direction events =>
    rw [closes_iff_isDue] at h ⊢
    cases direction <;> exact h
  | judge => rwa [step_judge_of_not_closes h]

/-- A window that is still open stays open until the clock moves. -/
theorem not_closes_run (h : ¬ course.Closes policy) {steps : List Step}
    (hstill : ∀ move, .move move ∉ steps) : ¬ (course.run policy steps).Closes policy := by
  induction steps generalizing course with
  | nil => exact h
  | cons step steps ih =>
    have hfirst (move : ManualClock.Move) : step ≠ .move move :=
      fun heq => hstill move (heq ▸ List.mem_cons_self)
    exact ih (not_closes_step h hfirst) fun move hmem => hstill move (List.mem_cons_of_mem _ hmem)

end Course

namespace Session

variable {session : Session} {id : FlowId}

/-- Where the clock does not move, it does not move for any flow. -/
theorem move_not_mem_life {actions : List Action} (h : ∀ move, .move move ∉ actions)
    (move : ManualClock.Move) : .move move ∉ session.life id actions := by
  induction actions generalizing session with
  | nil => exact List.not_mem_nil
  | cons action actions ih =>
    rw [life, List.mem_append, not_or]
    refine ⟨?_, ih fun move hmem => h move (List.mem_cons_of_mem _ hmem)⟩
    cases action with
    | move other => exact absurd List.mem_cons_self (h other)
    | record _ _ _ => rw [steps]; split <;> simp
    | resetMeter _ _ => rw [steps]; split <;> simp
    | _ => simp [steps]

/-- A flow that is there stays settled until the clock moves. -/
theorem settled_run (hthere : session.roster.flow? id ≠ none)
    (hsettled : session.roster.Settled session.clock.now id) {between : List Action}
    (hstill : ∀ move, .move move ∉ between) :
    (session.run between).1.roster.Settled (session.run between).1.clock.now id := by
  obtain ⟨flow, hflow⟩ := Option.ne_none_iff_exists'.mp hthere
  have hcourse := course?_of_flow? hflow
  have hopen : ¬ (Course.mk session.clock flow).Closes session.roster.policy := by
    rw [Course.closes_iff_isDue]
    exact Roster.settled_iff.mp hsettled flow hflow
  have hlife (move : ManualClock.Move) : .move move ∉ session.life id between :=
    move_not_mem_life hstill move
  have hlater := Course.not_closes_run hopen hlife
  obtain ⟨hflow', hclock⟩ := course?_eq_some_iff.mp (course?_run hcourse between).1
  rw [Roster.settled_iff, hflow', hclock, run_policy]
  rintro _ ⟨⟩
  rwa [Course.closes_iff_isDue] at hlater

/-- **Judging flows together is judging each of them once.** Take any session and any list of flows,
in any order and with any repetitions. Each listed flow becomes what it would become if it were
judged alone, no other flow changes, and what is told is, for each listed flow in the order in
which they are named first, what it would tell alone. So another list of the same flows brings the
session to the very same state, and the groups of what is told only change places. And as long as
the clock does not move, whatever happens in between, judging any of these flows again changes
nothing and tells nothing. -/
theorem judged_once (session : Session) (ids : List FlowId) :
    let after := (session.act (.judgeEach ids)).1
    let told := session.judgements (.judgeEach ids)
    (∀ id, after.roster.flow? id =
        (if id ∈ ids then (session.act (.judge id)).1.roster.flow? id
          else session.roster.flow? id) ∧
      id.told told = if id ∈ ids then (session.act (.judge id)).2 else []) ∧
    told = (ids.eraseDups.flatMap fun id => (session.act (.judge id)).2.map (id, ·)) ∧
    told.map Prod.snd = (session.act (.judgeEach ids)).2 ∧
    (∀ others : List FlowId, (∀ id, id ∈ others ↔ id ∈ ids) →
      (session.act (.judgeEach others)).1 = after ∧ others.eraseDups.Perm ids.eraseDups) ∧
    ∀ between again, (∀ move, .move move ∉ between) →
      (∀ id ∈ again, id ∈ ids ∧ session.roster.flow? id ≠ none) →
      let later := (after.run between).1
      later.act (.judgeEach again) = (later, []) := by
  intro after told
  have hfirst := session.roster.judgeEach_eraseDups session.clock.now ids
  have halone := session.roster.judgeEach_of_nodup session.clock.now (nodup_eraseDups ids)
  simp only [hfirst, List.mem_eraseDups] at halone
  refine ⟨halone, ?_, Roster.judgements_map_snd ids, fun others hothers => ?_, ?_⟩
  · exact hfirst.2.symm.trans (Roster.judgements_of_nodup (nodup_eraseDups ids))
  · have hperm : others.eraseDups.Perm ids.eraseDups := by
      rw [List.perm_ext_iff_of_nodup (nodup_eraseDups others) (nodup_eraseDups ids)]
      intro id
      rw [List.mem_eraseDups, List.mem_eraseDups, hothers]
    refine ⟨congrArg (Session.mk session.clock) ?_, hperm⟩
    rw [← hfirst.1, ← (session.roster.judgeEach_eraseDups session.clock.now others).1]
    exact Roster.judgeEach_perm hperm
  · intro between again hstill hagain later
    have hsettled (id : FlowId) (hid : id ∈ again) :
        later.roster.Settled later.clock.now id := by
      obtain ⟨hlisted, hthere⟩ := hagain id hid
      have hflow : after.roster.flow? id = _ := (halone id).1
      refine settled_run ?_ (Roster.settled_judgeEach hlisted) hstill
      rw [hflow, if_pos hlisted, Roster.flow?_judge, if_pos rfl, ne_eq, Option.map_eq_none_iff]
      exact hthere
    rw [act, Roster.judgeEach_of_settled hsettled]
    rfl

/-- Two flows to one peer and one to another, the first of them named twice: three windows are
closed. After more traffic, at the same reading of the clock, none is. -/
theorem judged_once_repeated :
    let session := ((start ⟨⟨0.9, 0.1, 10⟩, .ofMillis 1000, by decide⟩ 0).run
      [.track "a", .openFlow "a", .track "b", .record ⟨"a", 0⟩ .outgoing 10,
        .move (.advance (.ofMillis 1000))]).1
    let ids : List FlowId := [⟨"a", 0⟩, ⟨"b", 0⟩, ⟨"a", 0⟩, ⟨"a", 1⟩]
    let others : List FlowId := [⟨"a", 1⟩, ⟨"b", 0⟩, ⟨"a", 0⟩]
    let after := (session.act (.judgeEach ids)).1
    let later := (after.run [.record ⟨"a", 0⟩ .outgoing 7]).1
    ((session.act (.judgeEach ids)).2.map Event.message =
      ["closed back-pressure window", "peer overloaded", "closed back-pressure window",
        "closed back-pressure window"]) ∧
    (session.act (.judgeEach others)).1 = after ∧
    later.act (.judgeEach others) = (later, []) := by
  intro session ids others after later
  have hmem (id : FlowId) : id ∈ others ↔ id ∈ ids := by
    simp only [ids, others, List.mem_cons, List.not_mem_nil, or_false]
    tauto
  have hthere : ∀ id ∈ others, session.roster.flow? id ≠ none := by
    have hall : others.all (fun id => (session.roster.flow? id).isSome) = true := by
      decide +kernel
    intro id hid
    exact Option.isSome_iff_ne_none.mp (List.all_eq_true.mp hall id hid)
  obtain ⟨-, -, -, hothers, hagain⟩ := judged_once session ids
  refine ⟨by decide +kernel, (hothers others hmem).1, ?_⟩
  refine hagain _ others (by simp) fun id hid => ⟨(hmem id).mp hid, hthere id hid⟩

end Session

end FlowControl
