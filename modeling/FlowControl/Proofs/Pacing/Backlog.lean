import FlowControl.Proofs.Pacing.Interval
import FlowControl.Proofs.Pacing.Slots

/-!
# The backlog of a pacer

The longest interval bounds what one reservation adds to the time until the next slot opens. It
does not bound how long a reservation waits, for behind reservations that still wait the intervals
of all of them add up. A reservation waits for at most one longest interval more than there are
reservations waiting before it, and for every number of these there are reservations with which
it waits that long.
-/

namespace FlowControl

open Pacing (longest interval_le_longest interval_of_nothing)

namespace Pacer

variable {pacer : Pacer} {reservation : Reservation} {reservations : List Reservation}
  {n : ℕ}

/-- How many of some reservations still wait for their slots at a moment. -/
def waiting (pacer : Pacer) (now : Moment) (reservations : List Reservation) : ℕ :=
  (pacer.slots reservations).countP fun grant => now - pacer.anchor < grant.slot

/-- The last of several reservations is made of the pacer that those before it leave. -/
theorem after_concat (pacer : Pacer) (reservations : List Reservation)
    (reservation : Reservation) :
    pacer.after (reservations ++ [reservation]) = (pacer.after reservations).next reservation :=
  List.foldl_concat _ _ _ _

/-- The slots of reservations in two parts are those of the first part and then those of the
second. -/
theorem slots_append (first second : List Reservation) :
    pacer.slots (first ++ second) = pacer.slots first ++ (pacer.after first).slots second := by
  rw [slots, grants_append, List.filter_append]
  rfl

/-- A reservation without a limit does not wait, so it adds nothing to those that do. -/
theorem waiting_concat_of_unbounded (h : reservation.rate = unbounded) (now : Moment) :
    pacer.waiting now (reservations ++ [reservation]) = pacer.waiting now reservations := by
  rw [waiting, slots_append, slots_cons_of_unbounded h, waiting]
  exact congrArg _ (List.append_nil _)

/-- A reservation with a limit is one more that waits, if its slot has not opened yet. -/
theorem waiting_concat_of_limited (h : reservation.rate ≠ unbounded) (now : Moment) :
    pacer.waiting now (reservations ++ [reservation]) =
      pacer.waiting now reservations +
        if now - pacer.anchor < ((pacer.after reservations).grant reservation).slot
        then 1 else 0 := by
  rw [waiting, slots_append, slots_cons_of_limited h, List.countP_append, waiting]
  congr 1
  exact List.countP_singleton.trans (by simp only [decide_eq_true_eq])

/-- The slot a reservation takes opens no earlier than the next slot would have. -/
theorem nextFree_le_slot (h : reservation.rate ≠ unbounded) :
    pacer.nextFree.toNat ≤ (pacer.grant reservation).slot := by
  have hwait : (pacer.grant reservation).wait = _ := wait_of_limited h
  rw [toNat_elapsed, ← made_grant] at hwait
  unfold Grant.slot
  omega

/-- A reservation moves the next slot by at most the longest interval, from where it was or from
any moment up to which the reservation was made, whichever is later. -/
theorem nextFree_next_le (h : reservation.rate ≠ unbounded) {now : Moment}
    (hnow : reservation.now ≤ now) :
    (pacer.next reservation).nextFree.toNat ≤
      max pacer.nextFree.toNat (now - pacer.anchor) + longest.nanos := by
  have helapsed : (pacer.elapsed reservation.now).toNat ≤ now - pacer.anchor := by
    rw [toNat_elapsed]
    exact (min_le_left _ _).trans (Nat.sub_le_sub_right hnow _)
  have hinterval : reservation.interval ≤ longest.nanos := interval_le_longest _ _
  rw [nextFree_of_limited h, toNat_saturate]
  calc min _ wordLimit
      ≤ max pacer.nextFree.toNat (pacer.elapsed reservation.now).toNat + reservation.interval :=
        min_le_left _ _
    _ ≤ max pacer.nextFree.toNat (now - pacer.anchor) + longest.nanos :=
        Nat.add_le_add (max_le_max le_rfl helapsed) hinterval

/-- The time until the next slot opens is made of the intervals of the reservations that wait
and of one more, whose slot may be open. -/
theorem nextFree_after_le {now : Moment}
    (hpacer : pacer.nextFree.toNat ≤ now - pacer.anchor + longest.nanos)
    (h : ∀ earlier ∈ reservations, earlier.now ≤ now) :
    (pacer.after reservations).nextFree.toNat ≤
      now - pacer.anchor + longest.nanos * (pacer.waiting now reservations + 1) := by
  have hone (count : ℕ) : now - pacer.anchor + longest.nanos ≤
      now - pacer.anchor + longest.nanos * (count + 1) :=
    Nat.add_le_add_left (Nat.le_mul_of_pos_right _ count.succ_pos) _
  induction reservations using List.reverseRecOn with
  | nil => exact hpacer.trans (hone 0)
  | append_singleton before last ih =>
    have hbefore := ih fun earlier hmem => h earlier (List.mem_append_left _ hmem)
    have hlast : last.now ≤ now := h last (List.mem_append_right _ List.mem_cons_self)
    rw [after_concat]
    by_cases hlimited : last.rate = unbounded
    · rwa [next_of_unbounded hlimited, waiting_concat_of_unbounded hlimited]
    · have hstep : ((pacer.after before).next last).nextFree.toNat ≤ _ :=
        nextFree_next_le hlimited hlast
      rw [after_anchor] at hstep
      rw [waiting_concat_of_limited hlimited]
      by_cases hwaits : now - pacer.anchor < ((pacer.after before).grant last).slot
      · -- the last one waits as well, and its interval is the one more
        rw [if_pos hwaits, Nat.mul_add_one]
        omega
      · -- the last one waits no more, so what is left of the backlog is its own interval
        have hgranted := (nextFree_le_slot hlimited).trans (not_lt.mp hwaits)
        rw [max_eq_right hgranted] at hstep
        rw [if_neg hwaits, Nat.add_zero]
        exact hstep.trans (hone _)

/-- What a reservation waits is at most the time until the next slot opens. -/
theorem wait_le (h : pacer.nextFree.toNat ≤ reservation.now - pacer.anchor + n) :
    (pacer.grant reservation).wait ≤ n := by
  by_cases hlimited : reservation.rate = unbounded
  · rw [grant_of_unbounded hlimited]
    exact Nat.zero_le n
  · have hword := pacer.nextFree.toNat_lt
    rw [wait_of_limited hlimited, toNat_elapsed, wordLimit, wordCount]
    omega

/-- The reservations of a burst, made at one moment while no slot is occupied, take slots one
right after the other, and all but the first of them wait. -/
theorem after_burst {made : ℕ} (hmade : reservation.now - pacer.anchor = made)
    (h : reservation.rate ≠ unbounded) (hpos : 0 < reservation.interval)
    (hfree : pacer.nextFree.toNat ≤ made)
    (hlimit : made + reservation.interval * n ≤ wordLimit) :
    max (pacer.after (List.replicate n reservation)).nextFree.toNat made =
        made + reservation.interval * n ∧
      pacer.waiting reservation.now (List.replicate n reservation) = n - 1 := by
  induction n with
  | zero => exact ⟨max_eq_right hfree, rfl⟩
  | succ n ih =>
    rw [Nat.mul_add_one] at hlimit
    have hword : made ≤ wordLimit := by omega
    obtain ⟨hnext, hwaiting⟩ := ih (by omega)
    have helapsed :
        ((pacer.after (List.replicate n reservation)).elapsed reservation.now).toNat = made := by
      rw [toNat_elapsed, after_anchor, hmade, min_eq_left hword]
    have hslot : ((pacer.after (List.replicate n reservation)).grant reservation).slot =
        made + reservation.interval * n := by
      rw [Grant.slot, made_grant, wait_of_limited h, helapsed, after_anchor, hmade, ← hnext,
        Nat.add_comm, Nat.sub_add_eq_max]
    rw [List.replicate_succ', after_concat, nextFree_of_limited h, waiting_concat_of_limited h,
      hslot, hwaiting, helapsed, hnext, hmade, toNat_saturate, Nat.mul_add_one]
    refine ⟨by omega, ?_⟩
    cases n with
    | zero => rw [Nat.mul_zero, Nat.add_zero, if_neg (Nat.lt_irrefl made)]
    | succ n =>
      rw [if_pos (Nat.lt_add_of_pos_right (Nat.mul_pos hpos n.succ_pos))]
      rfl

/-- Behind a burst at a rate that permits nothing a reservation waits for the longest interval
once for each of them. -/
theorem exists_wait_eq {made : ℕ} (hmade : reservation.now - pacer.anchor = made)
    (h : reservation.rate ≠ unbounded) (hfree : pacer.nextFree.toNat ≤ made)
    (hlimit : made + longest.nanos * (n + 1) ≤ wordLimit) :
    ∃ reservations, (∀ earlier ∈ reservations, earlier.now = reservation.now) ∧
      pacer.waiting reservation.now reservations = n ∧
      ((pacer.after reservations).grant reservation).wait = longest.nanos * (n + 1) := by
  let stalled : Reservation := ⟨reservation.now, 0, 1⟩
  have hlimited : stalled.rate ≠ unbounded := show (0 : Float) ≠ unbounded by decide
  have hinterval : stalled.interval = longest.nanos :=
    congrArg Span.nanos (interval_of_nothing (Or.inr (show (0 : Float) ≤ 0 by decide)) 1)
  have hpos : 0 < stalled.interval := by
    rw [hinterval]
    decide
  have hburst : made + stalled.interval * (n + 1) ≤ wordLimit := by rwa [hinterval]
  obtain ⟨hnext, hwaiting⟩ :=
    after_burst (show stalled.now - pacer.anchor = made from hmade) hlimited hpos hfree hburst
  have hword : made ≤ wordLimit := (Nat.le_add_right _ _).trans hlimit
  refine ⟨List.replicate (n + 1) stalled, ?_, hwaiting, ?_⟩
  · intro earlier hmem
    rw [List.eq_of_mem_replicate hmem]
  · rw [hinterval] at hnext
    rw [wait_of_limited h, toNat_elapsed, after_anchor, hmade, min_eq_left hword]
    omega

/-- **The law of the backlog.** A reservation with a new pacer occupies its slot for at most the
longest interval. It waits for at most one longest interval more than there are reservations that
still wait when it is made, so for at most the longest interval if there are none. And whatever
their number is, there are reservations, all made at the same moment, behind which it waits as
long as that, up to the limit of a word. -/
theorem wait_le_longest_mul (anchor : Moment) (reservation : Reservation) :
    reservation.interval ≤ longest.nanos ∧
    (∀ reservations, (∀ earlier ∈ reservations, earlier.now ≤ reservation.now) →
      (((start anchor).after reservations).grant reservation).wait ≤
        longest.nanos * ((start anchor).waiting reservation.now reservations + 1)) ∧
    ∀ n, reservation.rate ≠ unbounded →
      reservation.now - anchor + longest.nanos * (n + 1) ≤ wordLimit →
      ∃ reservations, (∀ earlier ∈ reservations, earlier.now = reservation.now) ∧
        (start anchor).waiting reservation.now reservations = n ∧
        (((start anchor).after reservations).grant reservation).wait =
          longest.nanos * (n + 1) := by
  refine ⟨interval_le_longest _ _, ?_, ?_⟩
  · intro reservations h
    have hbacklog : ((start anchor).after reservations).nextFree.toNat ≤ _ :=
      nextFree_after_le (Nat.zero_le _) h
    apply wait_le
    rwa [after_anchor]
  · intro n hlimited hlimit
    exact exists_wait_eq rfl hlimited (Nat.zero_le _) hlimit

/-- Two reservations at a rate that permits nothing, and a third one behind them. -/
theorem wait_le_longest_mul_stalled :
    let stalled : Reservation := ⟨0, 0, 1⟩
    let pacer := start 0
    stalled.rate ≠ unbounded ∧ pacer.waiting 0 [stalled, stalled] = 1 ∧
      ((pacer.after [stalled, stalled]).grant stalled).wait ≤ longest.nanos * 2 := by
  intro stalled pacer
  have hwaiting : pacer.waiting 0 [stalled, stalled] = 1 := by decide +kernel
  have hbound : ((pacer.after [stalled, stalled]).grant stalled).wait ≤
      longest.nanos * (pacer.waiting 0 [stalled, stalled] + 1) :=
    (wait_le_longest_mul 0 stalled).2.1 [stalled, stalled] (by decide)
  rw [hwaiting] at hbound
  exact ⟨by decide, hwaiting, hbound⟩

/-- The longest interval does not bound how long a reservation waits: the third of three made at
once, at a rate that permits nothing, waits for two of them. -/
theorem wait_above_longest :
    ¬ ∀ (anchor : Moment) (reservations : List Reservation) (reservation : Reservation),
      ((reservations ++ [reservation]).Pairwise fun earlier later => earlier.now ≤ later.now) →
      (((start anchor).after reservations).grant reservation).wait ≤ longest.nanos := by
  intro h
  let stalled : Reservation := ⟨0, 0, 1⟩
  have hwait : (((start 0).after [stalled, stalled]).grant stalled).wait ≤ longest.nanos :=
    h 0 [stalled, stalled] stalled (by decide)
  exact absurd hwait (by decide +kernel)

end Pacer

end FlowControl
