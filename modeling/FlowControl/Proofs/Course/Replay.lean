import FlowControl.Proofs.Course.Limit
import FlowControl.Proofs.Course.WindowGate
import Mathlib.Data.List.Chain

/-!
# The journal of a flow

What is told of a flow is enough to know its limit, its overload flag and the number of its closed
windows. Each closed window is told with the limit before it, which is the clamped rate of the
window before; and a change between overloaded and not overloaded is told right after the window
that brought it.
-/

namespace FlowControl

open Binary64

namespace Event

/-- The limit before a closed window, and the verdict on the window. -/
def closing? : Event → Option (Float × Verdict)
  | .windowClosed _ previous verdict => some (previous, verdict)
  | .tracking _ => none
  | .overloaded _ _ _ => none
  | .recovered _ _ => none

/-- Whether a peer is overloaded from now on, if the event tells of a change. -/
def turn? : Event → Option Bool
  | .overloaded _ _ _ => some true
  | .recovered _ _ => some false
  | .tracking _ => none
  | .windowClosed _ _ _ => none

end Event

/-- The closed windows that events tell of, each with the limit before it. -/
def closings (events : List Event) : List (Float × Verdict) := events.filterMap Event.closing?

/-- The changes between overloaded and not overloaded that events tell of. -/
def turns (events : List Event) : List Bool := events.filterMap Event.turn?

/-- The event of the change that a verdict brings. -/
def Verdict.turn (verdict : Verdict) (peer : Peer) : Event :=
  if verdict.overloaded then .overloaded peer verdict.ratio verdict.rate
  else .recovered peer verdict.rate

/-- Every change is told right after the window that brought it, with the values of its verdict. -/
def TurnsFollow (peer : Peer) (events : List Event) : Prop :=
  ∀ before event after, events = before ++ event :: after → event.turn?.isSome = true →
    ∃ earlier previous verdict,
      before = earlier ++ [.windowClosed peer previous verdict] ∧ event = verdict.turn peer

/-- The events tell how a flow came from a new one to what it is. -/
structure Replays (events : List Event) (flow : Flow) : Prop where
  /-- Every closed window is told once. -/
  length_closings : (closings events).length = flow.windowsClosed.toNat
  /-- There is no limit before the first window. From then on the limit before each window, and
  the limit that there is now, is the clamped rate of the window before. -/
  limits : (closings events).map Prod.fst ++ [flow.rate] =
    unbounded :: (closings events).map fun closing => Allowance.clamp closing.2.rate
  /-- The flow becomes overloaded and recovers by turns, and becomes overloaded first. -/
  alternate : (false :: turns events).IsChain (· ≠ ·)
  /-- The flow is overloaded if the last change was to overloaded. -/
  overloaded_iff : flow.overloaded = true ↔ (turns events).getLast? = some true
  /-- Every change is told right after its window. -/
  follow : TurnsFollow flow.peer events

section Events

variable {peer : Peer} {events first second : List Event} {previous : Float} {verdict : Verdict}

/-- The closed windows of two parts are those of the first part and those of the second. -/
@[simp] theorem closings_append : closings (first ++ second) = closings first ++ closings second :=
  List.filterMap_append

/-- The changes of two parts are those of the first part and those of the second. -/
@[simp] theorem turns_append : turns (first ++ second) = turns first ++ turns second :=
  List.filterMap_append

/-- A verdict brings a change if it finds a peer overloaded that was not, or the other way. -/
theorem Flow.transition_eq (before : Bool) :
    Flow.transition peer before verdict =
      if before = verdict.overloaded then [] else [verdict.turn peer] := by
  unfold transition Verdict.turn
  cases before <;> cases verdict.overloaded <;> rfl

/-- What is told of a change closes no window. -/
@[simp] theorem Verdict.closing?_turn : (verdict.turn peer).closing? = none := by
  unfold turn
  split <;> rfl

/-- What is told of a change tells whether the peer is overloaded now. -/
@[simp] theorem Verdict.turn?_turn : (verdict.turn peer).turn? = some verdict.overloaded := by
  unfold turn
  split
  · next h => rw [h]; rfl
  · next h => rw [Bool.eq_false_iff.mpr h]; rfl

/-- The closed window that a judgement tells. -/
theorem closings_judgement (before : Bool) :
    closings (.windowClosed peer previous verdict :: Flow.transition peer before verdict) =
      [(previous, verdict)] := by
  have hclosed : Event.closing? (.windowClosed peer previous verdict) = some (previous, verdict) :=
    rfl
  rw [Flow.transition_eq, closings, List.filterMap_cons_some hclosed]
  split <;> simp

/-- The change that a judgement tells. -/
theorem turns_judgement (before : Bool) :
    turns (.windowClosed peer previous verdict :: Flow.transition peer before verdict) =
      if before = verdict.overloaded then [] else [verdict.overloaded] := by
  rw [Flow.transition_eq, turns, List.filterMap_cons_none rfl]
  split <;> simp

/-- One more judgement is told in the right order. -/
theorem TurnsFollow.judgement (h : TurnsFollow peer events) (before : Bool) :
    TurnsFollow peer
      (events ++ .windowClosed peer previous verdict :: Flow.transition peer before verdict) := by
  intro earlier event after hsplit hturn
  rw [Flow.transition_eq, List.append_eq_append_iff] at hsplit
  rcases hsplit with ⟨rest, rfl, hrest⟩ | ⟨rest, rfl, hrest⟩
  · cases rest with
    | nil =>
      -- the window itself is no change
      obtain ⟨rfl, -⟩ := List.cons.inj hrest
      cases hturn
    | cons closed rest =>
      obtain ⟨rfl, htail⟩ := List.cons.inj hrest
      split at htail
      · simp at htail
      · obtain ⟨rfl, hlast⟩ | ⟨_, hlast⟩ := List.append_eq_singleton_iff.mp htail.symm
        · exact ⟨events, previous, verdict, rfl, (List.cons.inj hlast).1⟩
        · cases hlast
  · cases rest with
    | nil =>
      obtain ⟨rfl, -⟩ := List.cons.inj hrest
      cases hturn
    | cons first rest =>
      obtain ⟨rfl, -⟩ := List.cons.inj hrest
      exact h _ _ _ rfl hturn

end Events

namespace Allowance

variable {x y : Float} {s : WithTop ℚ}

/-- A rate that is equal to a limit is clamped to that very limit. -/
theorem clamp_of_beq (hs : HasSize y s) (h : (x == y) = true) : clamp x = y := by
  by_cases hx : ∃ t, HasSize x t
  · obtain ⟨t, ht⟩ := hx
    rw [clamp_eq ht]
    exact ht.eq_of_eq hs ((ht.beq_iff hs).mp h)
  · have hpos : ¬ 0 < x := fun hpos => hx (exists_hasSize_of_lt hasSize_zero hpos)
    rw [clamp, if_neg hpos]
    exact hasSize_zero.eq_of_eq hs (hs.eq_zero_of_beq (not_exists.mp hx) h).symm

end Allowance

/-- Whether or not a rate is equal to the limit, closing a window leaves the clamped rate. -/
theorem Flow.rate_close_eq_clamp {flow : Flow} {now : UInt64} {verdict : Verdict}
    {s : WithTop ℚ} (hs : HasSize flow.rate s) :
    (flow.close now verdict).rate = Allowance.clamp verdict.rate := by
  rw [rate_close]
  split_ifs with hsame
  · exact (Allowance.clamp_of_beq hs hsame).symm
  · rfl

namespace Replays

variable {policy : Policy} {events : List Event} {course : Course}

/-- Of a new flow nothing is told. -/
theorem start (policy : Policy) (peer : Peer) : Replays [] (policy.newFlow peer) where
  length_closings := rfl
  limits := rfl
  alternate := List.isChain_singleton _
  overloaded_iff := by simp [turns, Policy.newFlow, Flow.start]
  follow := by simp [TurnsFollow]

/-- Recording traffic changes nothing that is told. -/
theorem record {flow : Flow} (h : Replays events flow) (direction : Direction) (n : UInt64) :
    Replays events (flow.record direction n) := by
  cases direction <;> exact ⟨h.1, h.2, h.3, h.4, h.5⟩

/-- The flag is what the last change said, and it is not set before any change. -/
theorem getLast?_cons_turns {flow : Flow} (h : Replays events flow) :
    (false :: turns events).getLast? = some flow.overloaded := by
  have hflag := h.overloaded_iff
  rw [List.getLast?_cons]
  cases hlast : (turns events).getLast? with
  | none =>
    have hfalse : flow.overloaded = false := by simpa [hlast] using hflag
    rw [hfalse]
    rfl
  | some last =>
    have hlast : flow.overloaded = last := by
      rw [hlast, Option.some_inj] at hflag
      exact Bool.eq_iff_iff.mpr hflag
    rw [hlast]
    rfl

/-- A closed window is told as it should be. -/
theorem close {s : WithTop ℚ} (h : Replays events course.flow) (hcloses : course.Closes policy)
    (hfit : course.WindowsFit policy) (hs : HasSize course.flow.rate s) :
    Replays (events ++ course.tells policy .judge) (course.step policy .judge).flow := by
  rw [hcloses.tells_judge]
  generalize hverdict : policy.verdict course.flow = verdict
  have hrate : (course.step policy .judge).flow.rate = Allowance.clamp verdict.rate := by
    rw [hcloses.flow_step, Flow.rate_close_eq_clamp hs, hverdict]
  have hflag : (course.step policy .judge).flow.overloaded = verdict.overloaded := by
    rw [hcloses.flow_step, hverdict]
    rfl
  have hpeer : (course.step policy .judge).flow.peer = course.flow.peer := by
    rw [hcloses.flow_step]
    rfl
  constructor
  · rw [closings_append, closings_judgement, List.length_append, h.length_closings,
      hcloses.toNat_windowsClosed_step hfit]
    rfl
  · rw [closings_append, closings_judgement, List.map_append, List.map_append, hrate,
      ← List.cons_append, ← h.limits]
    rfl
  · rw [turns_append, turns_judgement]
    split
    · simpa using h.alternate
    · next hne =>
      rw [← List.cons_append, List.isChain_append]
      refine ⟨h.alternate, List.isChain_singleton _, ?_⟩
      rw [h.getLast?_cons_turns]
      simpa using hne
  · rw [hflag, turns_append, turns_judgement]
    split
    · next heq => rw [List.append_nil, ← heq, h.overloaded_iff]
    · simp
  · rw [hpeer]
    exact h.follow.judgement _

/-- Every step is told as it should be. -/
theorem step {s : WithTop ℚ} (h : Replays events course.flow)
    (hfit : course.WindowsFit policy) (hs : HasSize course.flow.rate s) (step : Course.Step) :
    Replays (events ++ course.tells policy step) (course.step policy step).flow := by
  obtain ⟨rfl, hcloses⟩ | hopen := Course.closes_or_not policy course step
  · exact h.close hcloses hfit hs
  · rw [Course.tells_of_not_closes hopen, List.append_nil]
    obtain hsame | ⟨direction, n, hrecord⟩ := Course.flow_step_of_not_closes hopen
    · rwa [hsame]
    · rw [hrecord]
      exact h.record direction n

/-- Every run is told as it should be. -/
theorem run {s : WithTop ℚ} (h : Replays events course.flow)
    (hfit : course.WindowsFit policy) (hs : HasSize course.flow.rate s)
    (steps : List Course.Step) :
    Replays (events ++ course.journal policy steps) (course.run policy steps).flow := by
  induction steps generalizing events course s with
  | nil => simpa [Course.journal] using h
  | cons step steps ih =>
    obtain ⟨t, ht⟩ := Course.exists_hasSize_step hs step
    have hrest := ih (h.step hfit hs step) (hfit.step step) ht
    rwa [Course.journal, ← List.append_assoc]

end Replays

/-- The journal of a run of a new flow tells how it came to what it is. -/
theorem Course.replays_run (policy : Policy) (peer : Peer) (millis : UInt64)
    (steps : List Step) :
    Replays ((start policy peer millis).journal policy steps)
      ((start policy peer millis).run policy steps).flow := by
  have hstart : Replays [] (start policy peer millis).flow := Replays.start policy peer
  exact hstart.run (windowsFit_start policy peer millis) hasSize_unbounded steps

end FlowControl
