import FlowControl.Proofs.Link.Account
import Mathlib.Algebra.Ring.Nat
import Mathlib.Data.List.Basic

/-!
# A link is a bounded queue

Whatever happens to a link, in whatever order, its peer acknowledges the messages that it held in
the order in which they were sent, each of them once. It never holds more messages than it may, and it
drops a message exactly if it holds as many as it may. The statistics of the link count what the
account tells.
-/

namespace FlowControl.Account

/-- The acknowledged messages, in their order. -/
def acknowledgedMessages (account : Account) : List MessageId :=
  account.acknowledged.map (·.message)

/-- How many messages were held and are not acknowledged. -/
def pending (account : Account) : ℕ := account.queued.length - account.acknowledged.length

/-- How many messages were handed to the link. -/
def sent (account : Account) : ℕ :=
  account.queued.length + account.dropped.length + account.refused.length

variable {account next : Account} {step : LinkStep} {depth : ℕ}

/-- There is one message for each acknowledgment. -/
theorem length_acknowledgedMessages (account : Account) :
    account.acknowledgedMessages.length = account.acknowledged.length :=
  List.length_map _

/-! ### What a step keeps -/

/-- A link agrees with its account. A peer that was stopped has lost the messages that it held, and
any other one has lost none. -/
structure Agrees (account : Account) (depth : ℕ) : Prop where
  depth_eq : account.link.depth = depth
  in_order : account.acknowledgedMessages <+: account.queued
  lossless : account.link.stage ≠ .stopped →
    account.queued = account.acknowledgedMessages ++ account.link.backlog
  pending_le : account.pending ≤ depth
  taken_eq : account.acknowledgedMessages = account.taken ++ account.link.acks
  queued_eq : account.link.queued = .ofNat account.queued.length
  dropped_eq : account.link.dropped = .ofNat account.dropped.length

/-- A new link agrees with its account. -/
theorem agrees_start (peer : Peer) (capacity : Float) (depth : ℕ) (now : Moment) :
    (start peer capacity depth now).Agrees depth where
  depth_eq := rfl
  in_order := List.prefix_rfl
  lossless _ := rfl
  pending_le := Nat.zero_le depth
  taken_eq := rfl
  queued_eq := rfl
  dropped_eq := rfl

/-- A peer that was not stopped holds the messages that are not acknowledged. -/
theorem Agrees.length_backlog (h : account.Agrees depth)
    (hstage : account.link.stage ≠ .stopped) : account.link.backlog.length = account.pending := by
  rw [pending, h.lossless hstage, List.length_append, length_acknowledgedMessages,
    Nat.add_sub_cancel_left]

/-- The count of a list with one more entry. -/
private theorem ofNat_length_concat (messages : List MessageId) (message : MessageId) :
    UInt64.ofNat (messages ++ [message]).length = UInt64.ofNat messages.length + 1 := by
  rw [List.length_append, List.length_singleton, UInt64.ofNat_add]
  rfl

/-- Every step keeps a link and its account in agreement. -/
theorem Agrees.acts (h : account.Agrees depth) (hacts : account.Acts step next) :
    next.Agrees depth := by
  cases hacts with
  | queue message hstage hroom =>
    have hlength := h.length_backlog hstage
    have hdepth := h.depth_eq
    have hle := h.in_order.length_le
    rw [length_acknowledgedMessages] at hle
    exact { h with
      in_order := h.in_order.trans (List.prefix_append _ _)
      lossless := fun _ => by
        change account.queued ++ [message] =
          account.acknowledgedMessages ++ (account.link.backlog ++ [message])
        rw [h.lossless hstage, List.append_assoc]
      pending_le := by
        change (account.queued ++ [message]).length - account.acknowledged.length ≤ depth
        rw [List.length_append, List.length_singleton]
        rw [pending] at hlength
        omega
      queued_eq := by
        change account.link.queued + 1 = _
        rw [ofNat_length_concat, h.queued_eq] }
  | drop message hstage hfull =>
    exact { h with
      dropped_eq := by
        change account.link.dropped + 1 = _
        rw [ofNat_length_concat, h.dropped_eq] }
  | refuse message hstage => exact { h with }
  | tick hstage hdue =>
    exact { h with
      lossless := fun _ => h.lossless (by rw [hstage]; exact PeerStage.noConfusion) }
  | @acknowledge message rest hstage hbacklog =>
    have hheld := h.lossless (by rw [hstage]; exact PeerStage.noConfusion)
    rw [hbacklog, List.append_cons] at hheld
    have hmessages : (account.acknowledged ++
        [Acknowledgment.mk message account.due account.tick account.now]).map (·.message) =
          account.acknowledgedMessages ++ [message] := List.map_append
    exact { h with
      in_order := by
        rw [acknowledgedMessages, hmessages]
        exact ⟨rest, hheld.symm⟩
      lossless := fun _ => by
        rw [acknowledgedMessages, hmessages]
        exact hheld
      pending_le := by
        have hle := h.pending_le
        rw [pending] at hle
        change account.queued.length - (account.acknowledged ++
          [Acknowledgment.mk message account.due account.tick account.now]).length ≤ depth
        rw [List.length_append]
        omega
      taken_eq := by
        rw [acknowledgedMessages, hmessages, h.taken_eq]
        exact List.append_assoc _ _ _ }
  | idle => exact h
  | pass nanos => exact { h with }
  | take =>
    exact { h with
      taken_eq := h.taken_eq.trans (List.append_nil _).symm }
  | abort => exact { h with lossless := fun hstage => absurd rfl hstage }

/-- After any steps a new link agrees with its account. -/
theorem agrees_run (peer : Peer) (capacity : Float) (depth : ℕ) (now : Moment)
    (steps : List LinkStep) : ((start peer capacity depth now).run steps).Agrees depth :=
  run_preserves (P := (·.Agrees depth)) rfl Agrees.acts (agrees_start peer capacity depth now) steps

/-- A message that is handed to the link is entered once, and nothing else is. -/
theorem Acts.sent_eq (h : account.Acts step next) :
    next.sent = account.sent + if step.isSend then 1 else 0 := by
  cases h <;> simp only [sent, LinkStep.isSend, List.length_append, List.length_singleton,
    if_true, Bool.false_eq_true, if_false] <;> omega

/-- A run hands as many messages to the link as it has steps that send. -/
theorem sent_run (hheard : account.link.heard = true) (steps : List LinkStep) :
    (account.run steps).sent = account.sent + steps.countP LinkStep.isSend := by
  induction steps generalizing account with
  | nil => rfl
  | cons step steps ih =>
    have hacts := acts_step hheard step
    rw [run_cons, ih (hacts.heard_eq.trans hheard), hacts.sent_eq, List.countP_cons]
    omega

/-- A peer runs until it is stopped. -/
theorem stopped_run_iff (hheard : account.link.heard = true) (steps : List LinkStep) :
    (account.run steps).link.stage = .stopped ↔
      account.link.stage = .stopped ∨ LinkStep.abort ∈ steps := by
  induction steps generalizing account with
  | nil => exact (or_iff_left List.not_mem_nil).symm
  | cons step steps ih =>
    have hacts := acts_step hheard step
    rw [run_cons, ih (hacts.heard_eq.trans hheard), List.mem_cons]
    generalize account.step step = next at hacts
    cases hacts <;> simp_all

/-! ### The queue -/

/-- A link with an account of some steps is a queue that holds a bounded number of messages. -/
structure IsBoundedQueue (account : Account) (depth : ℕ) (steps : List LinkStep) : Prop where
  /-- What is acknowledged was held, and comes in the same order. -/
  in_order : account.acknowledgedMessages <+: account.queued
  /-- What is taken was acknowledged, and comes in the same order. -/
  taken_in_order : account.taken <+: account.acknowledgedMessages
  /-- No message that was held is lost unless the peer is stopped. -/
  lossless : LinkStep.abort ∉ steps →
    account.queued = account.acknowledgedMessages ++ account.link.backlog
  /-- No more is acknowledged than was held. -/
  acknowledged_le : account.acknowledged.length ≤ account.queued.length
  /-- The peer holds no more than it may. -/
  pending_le : account.queued.length - account.acknowledged.length ≤ depth
  /-- The peer drops a message exactly if it holds as many as it may. -/
  send_running : LinkStep.abort ∉ steps → ∀ message, (account.link.send message).1 =
    .ok (if account.queued.length - account.acknowledged.length = depth then .dropped else .queued)
  /-- A peer that was stopped takes no message, and the link does not count it. -/
  send_stopped : LinkStep.abort ∈ steps → ∀ message, account.link.send message =
    (.error (.stopped account.link.peer), account.link)
  /-- Every message that was sent is entered once. -/
  sends : steps.countP LinkStep.isSend =
    account.queued.length + account.dropped.length + account.refused.length
  /-- The statistics are the numbers of messages that were held and dropped, as words. -/
  statistics : account.link.queued = .ofNat account.queued.length ∧
    account.link.dropped = .ofNat account.dropped.length
  /-- They are these numbers until they go around. -/
  statistics_toNat : steps.countP LinkStep.isSend < 2 ^ 64 →
    account.link.queued.toNat = account.queued.length ∧
    account.link.dropped.toNat = account.dropped.length ∧
    account.link.queued.toNat + account.link.dropped.toNat =
      steps.countP LinkStep.isSend - account.refused.length

/-- **A link is a lossless bounded queue**, for every capacity, every number of messages that it may
hold, and all steps in any order. -/
theorem link_bounded_queue (peer : Peer) (capacity : Float) (depth : ℕ) (now : Moment)
    (steps : List LinkStep) :
    ((start peer capacity depth now).run steps).IsBoundedQueue depth steps := by
  have h := agrees_run peer capacity depth now steps
  have hsends : ((start peer capacity depth now).run steps).sent =
      steps.countP LinkStep.isSend := (sent_run rfl steps).trans (Nat.zero_add _)
  have hstopped : ((start peer capacity depth now).run steps).link.stage = .stopped ↔
      LinkStep.abort ∈ steps :=
    (stopped_run_iff rfl steps).trans (or_iff_right PeerStage.noConfusion)
  generalize (start peer capacity depth now).run steps = account at h hsends hstopped ⊢
  have hle := h.in_order.length_le
  rw [length_acknowledgedMessages] at hle
  have hword {n : ℕ} (hn : n < 2 ^ 64) : (UInt64.ofNat n).toNat = n := Nat.mod_eq_of_lt hn
  refine ⟨h.in_order, ⟨_, h.taken_eq.symm⟩, fun hmem => h.lossless (mt hstopped.mp hmem), hle,
    h.pending_le, fun hmem message => ?_, fun hmem message => ?_, hsends.symm,
    ⟨h.queued_eq, h.dropped_eq⟩, fun hfew => ?_⟩
  · have hstage := mt hstopped.mp hmem
    have hlength := h.length_backlog hstage
    have hpending := h.pending_le
    rw [pending] at hlength hpending
    rw [Link.send, if_neg hstage, hlength, h.depth_eq]
    by_cases hfull : account.queued.length - account.acknowledged.length = depth
    · rw [if_neg (by omega), if_pos hfull]
    · rw [if_pos (by omega), if_neg hfull]
  · rw [Link.send, if_pos (hstopped.mpr hmem)]
  · rw [sent] at hsends
    rw [h.queued_eq, h.dropped_eq, hword (by omega), hword (by omega)]
    exact ⟨rfl, rfl, by omega⟩

/-- A peer that may hold two messages gets five at once, works, and gets one more. -/
example :
    let account := (start "peer" 1 2 0).run
      [.work, .send 0, .send 1, .send 2, .work, .send 3, .send 4]
    account.queued = [0, 1, 3] ∧ account.dropped = [2, 4] ∧ account.acknowledgedMessages = [0] ∧
      account.link.queued = 3 ∧ account.link.dropped = 2 := by
  decide +kernel

end FlowControl.Account
