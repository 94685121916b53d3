import FlowControl.Proofs.Link.Account
import FlowControl.Proofs.Trial.Ends
import Mathlib.Data.List.Chain

/-!
# How far acknowledgments are apart

A peer takes its tick before it waits for a message. So the tick of a message that comes after an
idle time is an old one, the next tick is due already, and two messages in succession can be
acknowledged at the same moment. Ticks are a period apart, so what an idle time saves up is one
message: any two acknowledgments are apart by a period for each one between them, up to the slack
of the ticker, and two in succession are a period apart if the peer did not wait for the first one.
-/

namespace FlowControl

/-- The moment from which the next tick is counted. -/
def Acknowledgment.base (ack : Acknowledgment) : Moment :=
  if ack.due + Ticker.slack < ack.tick then ack.tick else ack.due

/-- One acknowledgment follows another: its tick comes after the other message was acknowledged, and
was due a period after the other tick. -/
def Acknowledgment.Follows (period : ℕ) (first second : Acknowledgment) : Prop :=
  second.due = first.base + period ∧ first.time ≤ second.tick

/-- A tick is taken when it is due, and then a message is waited for. -/
structure Acknowledgment.IsPunctual (ack : Acknowledgment) : Prop where
  due_le : ack.due ≤ ack.tick
  tick_le : ack.tick ≤ ack.time

namespace Acknowledgment

variable {first second : Acknowledgment} {rest : List Acknowledgment} {period : ℕ}

/-- The next tick is counted from no earlier than this one was due. -/
theorem due_le_base (ack : Acknowledgment) (h : ack.due ≤ ack.tick) : ack.due ≤ ack.base := by
  unfold base
  split_ifs
  · exact h
  · exact le_rfl

/-- A tick is counted as late by no more than the slack. -/
theorem tick_le_base (ack : Acknowledgment) : ack.tick ≤ ack.base + Ticker.slack := by
  unfold base
  split_ifs with hlate
  · exact Nat.le_add_right _ _
  · exact Nat.le_of_not_lt hlate

/-- A period for each acknowledgment passes from one tick to another. -/
theorem base_add_le_due {acks : List Acknowledgment} (last : Acknowledgment)
    (hchain : (first :: acks ++ [last]).IsChain (Follows period))
    (hpunctual : ∀ ack ∈ acks, ack.IsPunctual) :
    first.base + (acks.length + 1) * period ≤ last.due := by
  induction acks generalizing first with
  | nil =>
    have hfollows : first.Follows period last := by simpa using hchain
    rw [hfollows.1, List.length_nil, Nat.zero_add, Nat.one_mul]
  | cons second acks ih =>
    obtain ⟨hfollows, hrest⟩ := List.isChain_cons_cons.mp hchain
    have hle := ih hrest fun ack hmem => hpunctual ack (List.mem_cons_of_mem _ hmem)
    have hbase := second.due_le_base (hpunctual second List.mem_cons_self).due_le
    rw [hfollows.1] at hbase
    rw [List.length_cons, Nat.succ_mul]
    unfold Moment at *
    omega

end Acknowledgment

/-- Acknowledgments that a peer sent, of which only the tick of the first may have been saved up. -/
structure Acknowledgment.ArePaced (acks : List Acknowledgment) (period : ℕ) : Prop where
  /-- Every message was acknowledged after a tick that was due. -/
  punctual : ∀ ack ∈ acks, ack.IsPunctual
  /-- Each tick is due a period after the one before it. -/
  follows : ∀ before first second after, acks = before ++ first :: second :: after →
    first.Follows period second
  /-- Two acknowledgments in succession are a period apart, up to the slack, unless the peer waited
  for the first message. -/
  apart : ∀ before first second after, acks = before ++ first :: second :: after →
    first.time + period ≤ second.time + (first.time - first.tick) + Ticker.slack
  /-- They are a period apart if the peer did not wait for the first message, and its tick was not
  late or put off the next one. -/
  apart_of_busy : ∀ before first second after, acks = before ++ first :: second :: after →
    first.time = first.tick → first.tick = first.due ∨ first.due + Ticker.slack < first.tick →
    first.time + period ≤ second.time
  /-- Any two acknowledgments are apart by a period for each one between them, up to the slack. -/
  spaced : ∀ before first between last after,
    acks = before ++ first :: between ++ last :: after →
    first.time + between.length * period ≤ last.time + Ticker.slack

namespace Acknowledgment

variable {acks : List Acknowledgment} {period : ℕ}

/-- Acknowledgments of which each follows the one before it are paced. -/
theorem arePaced_of_isChain (hpunctual : ∀ ack ∈ acks, ack.IsPunctual)
    (hchain : acks.IsChain (Follows period)) : ArePaced acks period := by
  have hfollows {before after : List Acknowledgment} {first second : Acknowledgment}
       (h : acks = before ++ first :: second :: after) :
      first.Follows period second ∧ second.IsPunctual := by
    refine ⟨?_, hpunctual second (by simp [h])⟩
    rw [h] at hchain
    exact (List.isChain_append_cons_cons.mp hchain).2.1
  refine ⟨hpunctual, fun before first second after h => (hfollows h).1,
    fun before first second after h => ?_, fun before first second after h htime hlate => ?_,
    fun before first between last after h => ?_⟩
  · obtain ⟨⟨hdue, -⟩, hsecond⟩ := hfollows h
    have hbase := first.tick_le_base
    have := hsecond.due_le
    have := hsecond.tick_le
    have := (hpunctual first (by simp [h])).tick_le
    unfold Moment at *
    omega
  · obtain ⟨⟨hdue, -⟩, hsecond⟩ := hfollows h
    have hbase : first.base = first.tick := by
      unfold base
      split_ifs with hslack
      · rfl
      · exact (hlate.resolve_right hslack).symm
    have := hsecond.due_le
    have := hsecond.tick_le
    unfold Moment at *
    omega
  · have hsegment : (first :: between ++ [last]).IsChain (Follows period) :=
      hchain.infix ⟨before, after, by simp [h]⟩
    have hlast := hpunctual last (by simp [h])
    have htimes := hlast.due_le.trans hlast.tick_le
    cases between with
    | nil =>
      have hpair : first.Follows period last := by simpa using hsegment
      have := hpair.2.trans hlast.tick_le
      rw [List.length_nil, Nat.zero_mul]
      unfold Moment at *
      omega
    | cons second between =>
      -- the first period counts from the tick of the second message, which comes after the first
      -- message was acknowledged
      obtain ⟨hpair, hrest⟩ := List.isChain_cons_cons.mp hsegment
      have hticks := base_add_le_due last hrest fun ack hmem => hpunctual ack (by simp [h, hmem])
      have hbase := second.tick_le_base
      have := hpair.2
      rw [List.length_cons]
      unfold Moment at *
      omega

end Acknowledgment

namespace Account

open Acknowledgment

variable {account next : Account} {step : LinkStep} {period : ℕ}

/-- What the times of an account say about the next tick of its link. -/
structure Ticks (account : Account) (period : ℕ) : Prop where
  period_eq : account.link.ticker.period = period
  due_le : account.due ≤ account.tick
  tick_le : account.tick ≤ account.now
  punctual : ∀ ack ∈ account.acknowledged, ack.IsPunctual
  time_le : ∀ ack ∈ account.acknowledged, ack.time ≤ account.now
  chain : account.acknowledged.IsChain (Follows period)
  /-- The next tick follows the last acknowledgment. -/
  awaiting_tick : account.link.stage = .awaitingTick →
    ∀ ack ∈ account.acknowledged.getLast?, account.link.ticker.deadline = ack.base + period
  /-- The last tick follows the last acknowledgment, and the next one will follow it. -/
  awaiting_message : account.link.stage = .awaitingMessage →
    (∀ ack ∈ account.acknowledged.getLast?, account.due = ack.base + period ∧
      ack.time ≤ account.tick) ∧
    account.link.ticker.deadline =
      (if account.due + Ticker.slack < account.tick then account.tick else account.due) + period

/-- The next tick of a new link is due at once, and nothing is acknowledged yet. -/
theorem ticks_start (peer : Peer) (capacity : Float) (depth : ℕ) (now : Moment) :
    (start peer capacity depth now).Ticks (Pacing.period capacity).nanos where
  period_eq := rfl
  due_le := le_rfl
  tick_le := le_rfl
  punctual := List.forall_mem_nil _
  time_le := List.forall_mem_nil _
  chain := .nil
  awaiting_tick _ := by simp [start]
  awaiting_message h := PeerStage.noConfusion h

/-- Every step keeps what is known of the next tick. -/
theorem Ticks.acts (h : account.Ticks period) (hacts : account.Acts step next) :
    next.Ticks period := by
  cases hacts with
  | queue message hstage hroom => exact { h with }
  | drop message hstage hfull => exact { h with }
  | refuse message hstage => exact { h with }
  | tick hstage hdue =>
    have hdeadline : account.link.ticker.deadline ≤ account.now :=
      (Moment.le_fires _).trans hdue
    exact { h with
      period_eq := by
        change (account.link.ticker.tick account.now).period = period
        unfold Ticker.tick
        split_ifs <;> exact h.period_eq
      due_le := hdeadline
      tick_le := le_rfl
      awaiting_tick := fun hother => PeerStage.noConfusion hother
      awaiting_message := fun _ => by
        refine ⟨fun ack hack => ⟨h.awaiting_tick hstage ack hack,
          h.time_le ack (List.mem_of_getLast? hack)⟩, ?_⟩
        change (account.link.ticker.tick account.now).deadline = _
        unfold Ticker.tick
        split_ifs <;> rw [h.period_eq] }
  | @acknowledge message rest hstage hbacklog =>
    obtain ⟨hfollows, hdeadline⟩ := h.awaiting_message hstage
    exact { h with
      punctual := by
        simp only [List.forall_mem_append, List.forall_mem_singleton]
        exact ⟨h.punctual, ⟨h.due_le, h.tick_le⟩⟩
      time_le := by
        simp only [List.forall_mem_append, List.forall_mem_singleton]
        exact ⟨h.time_le, le_rfl⟩
      chain := by
        refine h.chain.append (.singleton _) fun ack hack second hsecond => ?_
        obtain rfl := Option.mem_some_iff.mp hsecond
        exact hfollows ack hack
      awaiting_tick := fun _ ack hack => by
        rw [List.getLast?_concat, Option.mem_some_iff] at hack
        obtain rfl := hack
        exact hdeadline
      awaiting_message := fun hother => PeerStage.noConfusion hother }
  | idle => exact h
  | pass nanos =>
    exact { h with
      tick_le := h.tick_le.trans (Nat.le_add_right _ _)
      time_le := fun ack hack => (h.time_le ack hack).trans (Nat.le_add_right _ _) }
  | take => exact { h with }
  | abort =>
    exact { h with
      awaiting_tick := fun hother => PeerStage.noConfusion hother
      awaiting_message := fun hother => PeerStage.noConfusion hother }

/-- **The acknowledgments of a link are paced**, for every capacity, every number of messages that
its peer may hold, and all steps in any order. -/
theorem acknowledgments_paced (peer : Peer) (capacity : Float) (depth : ℕ) (now : Moment)
    (steps : List LinkStep) :
    ArePaced ((start peer capacity depth now).run steps).acknowledged
      (Pacing.period capacity).nanos := by
  have h : ((start peer capacity depth now).run steps).Ticks (Pacing.period capacity).nanos :=
    run_preserves (P := (·.Ticks _)) rfl Ticks.acts (ticks_start peer capacity depth now) steps
  exact arePaced_of_isChain h.punctual h.chain

/-- A peer that can process one message per second waits for two seconds, and acknowledges the two
messages that it gets then at the same moment. -/
theorem acknowledged_at_once :
    let account := (start "peer" 1 2 0).run
      [.work, .pass (2 * nanosPerSecond), .send 0, .send 1, .work, .work, .work]
    (Pacing.period 1).nanos = 1000 * nanosPerMilli ∧
      account.acknowledged.map (·.time) = [2 * nanosPerSecond, 2 * nanosPerSecond] := by
  decide +kernel

end Account

end FlowControl
