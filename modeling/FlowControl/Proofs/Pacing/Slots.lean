import FlowControl.Pacing
import FlowControl.Proofs.Binary64.Size
import Mathlib.Algebra.BigOperators.Group.List.Basic
import Mathlib.Order.MinMax

/-!
# The law of slots

A pacer keeps one moment, at which the next slot opens, and from it follows when every
reservation is granted: at once if no slot is occupied, and otherwise when the slot of the one
before it is over. So the slots never overlap, whatever rates and numbers of sends follow one
another. A reservation without a limit is granted at once and leaves no trace.
-/

namespace FlowControl

open Binary64

/-- What a pacer is asked for: slots for a number of sends at a rate, at a moment. -/
structure Reservation where
  now : Moment
  rate : Float
  permits : UInt32

/-- The interval of a reservation, in nanoseconds. -/
def Reservation.interval (reservation : Reservation) : ℕ :=
  (Pacing.interval reservation.rate reservation.permits).nanos

/-- A reservation that was granted, its times in nanoseconds. -/
structure Grant where
  reservation : Reservation
  /-- When the reservation was made, since the anchor. -/
  made : ℕ
  /-- How long it has to wait. -/
  wait : ℕ

namespace Grant

/-- When a reservation is granted. This is when its slot opens, unless it takes none. -/
def slot (grant : Grant) : ℕ := grant.made + grant.wait

/-- Whether there is a limit, so that the reservation takes a slot. -/
def IsLimited (grant : Grant) : Prop := grant.reservation.rate ≠ unbounded

instance : DecidablePred IsLimited := fun grant => by unfold IsLimited; infer_instance

end Grant

namespace Pacer

/-- What a pacer answers to a reservation. -/
def grant (pacer : Pacer) (reservation : Reservation) : Grant where
  reservation := reservation
  made := reservation.now - pacer.anchor
  wait := (pacer.reserve reservation.now reservation.rate reservation.permits).1.toNat

/-- The pacer after a reservation. -/
def next (pacer : Pacer) (reservation : Reservation) : Pacer :=
  (pacer.reserve reservation.now reservation.rate reservation.permits).2

/-- The pacer after reservations one after the other. -/
def after (pacer : Pacer) (reservations : List Reservation) : Pacer :=
  reservations.foldl next pacer

/-- What a pacer answers to reservations one after the other. -/
def grants (pacer : Pacer) : List Reservation → List Grant
  | [] => []
  | reservation :: reservations =>
    pacer.grant reservation :: (pacer.next reservation).grants reservations

/-- The grants that took a slot. -/
def slots (pacer : Pacer) (reservations : List Reservation) : List Grant :=
  (pacer.grants reservations).filter Grant.IsLimited

end Pacer

/-- Slots that follow one another: each opens when it is asked for, or else when the one before it
is over. The first one is free from the given moment on. -/
def Follow (free : ℕ) : List Grant → Prop
  | [] => True
  | grant :: grants =>
    grant.slot = max grant.made free ∧
      Follow (grant.slot + grant.reservation.interval) grants

section Words

/-- A number to which a saturated one is added saturates as if it had not. -/
theorem saturate_add_saturate (m n : ℕ) :
    saturate (m + (saturate n).toNat) = saturate (m + n) := by
  rw [← UInt64.toNat_inj, toNat_saturate, toNat_saturate, toNat_saturate]
  omega

/-- The one rate without a limit is infinity. -/
theorem isInf_and_pos_iff {rate : Float} : rate.isInf ∧ 0 < rate ↔ rate = unbounded := by
  constructor
  · rintro ⟨hinf, hpos⟩
    obtain ⟨s, hs⟩ := exists_hasSize_of_lt hasSize_zero hpos
    exact hs.eq_of_eq hasSize_unbounded (hs.isInf_iff.mp hinf)
  · rintro rfl
    exact ⟨by decide, by decide⟩

end Words

namespace Pacer

variable {pacer : Pacer} {reservation : Reservation}

/-- A reservation is made at its moment, counted from the anchor. -/
theorem made_grant : (pacer.grant reservation).made = reservation.now - pacer.anchor := rfl

/-- Without a limit nobody waits and no slot is taken. -/
theorem reserve_of_unbounded (h : reservation.rate = unbounded) :
    pacer.reserve reservation.now reservation.rate reservation.permits = (0, pacer) :=
  if_pos (isInf_and_pos_iff.mpr h)

/-- A reservation without a limit leaves the pacer as it is. -/
theorem next_of_unbounded (h : reservation.rate = unbounded) :
    pacer.next reservation = pacer := by
  rw [next, reserve_of_unbounded h]

/-- A reservation without a limit is granted at once. -/
theorem grant_of_unbounded (h : reservation.rate = unbounded) :
    pacer.grant reservation = ⟨reservation, reservation.now - pacer.anchor, 0⟩ := by
  rw [grant, reserve_of_unbounded h]
  rfl

/-- With a limit a reservation waits until the next slot opens. -/
theorem wait_of_limited (h : reservation.rate ≠ unbounded) :
    (pacer.grant reservation).wait =
      pacer.nextFree.toNat - (pacer.elapsed reservation.now).toNat := by
  have hle : pacer.elapsed reservation.now ≤
      max pacer.nextFree (pacer.elapsed reservation.now) := by
    rw [UInt64.le_iff_toNat_le, UInt64.toNat_max]
    exact le_max_right _ _
  unfold grant reserve
  rw [if_neg (mt isInf_and_pos_iff.mp h)]
  dsimp only
  rw [UInt64.toNat_sub_of_le _ _ hle, UInt64.toNat_max]
  omega

/-- With a limit a reservation occupies its slot for its interval. -/
theorem nextFree_of_limited (h : reservation.rate ≠ unbounded) :
    (pacer.next reservation).nextFree =
      saturate (max pacer.nextFree.toNat (pacer.elapsed reservation.now).toNat +
        reservation.interval) := by
  unfold next reserve
  rw [if_neg (mt isInf_and_pos_iff.mp h)]
  dsimp only
  rw [UInt64.toNat_max, Span.nanosWord, saturate_add_saturate]
  rfl

/-- A reservation does not move the anchor. -/
@[simp] theorem next_anchor : (pacer.next reservation).anchor = pacer.anchor := by
  unfold next reserve
  split <;> rfl

/-- Reservations do not move the anchor. -/
@[simp] theorem after_anchor (reservations : List Reservation) :
    (pacer.after reservations).anchor = pacer.anchor := by
  induction reservations generalizing pacer with
  | nil => rfl
  | cons reservation reservations ih => exact ih.trans next_anchor

/-- The time since the anchor is shown up to the largest word. -/
theorem toNat_elapsed (now : Moment) :
    (pacer.elapsed now).toNat = min (now - pacer.anchor) wordLimit :=
  toNat_saturate _

/-- Reservations in two parts are granted by the pacer, and then by the pacer that the first part
leaves. -/
theorem grants_append (first second : List Reservation) :
    pacer.grants (first ++ second) =
      pacer.grants first ++ (pacer.after first).grants second := by
  induction first generalizing pacer with
  | nil => rfl
  | cons reservation reservations ih =>
    rw [List.cons_append, grants, grants, ih]
    rfl

/-- A reservation with a limit takes the first slot. -/
theorem slots_cons_of_limited (h : reservation.rate ≠ unbounded)
    (reservations : List Reservation) :
    pacer.slots (reservation :: reservations) =
      pacer.grant reservation :: (pacer.next reservation).slots reservations :=
  List.filter_cons_of_pos (decide_eq_true h)

/-- A reservation without a limit takes no slot. -/
theorem slots_cons_of_unbounded (h : reservation.rate = unbounded)
    (reservations : List Reservation) :
    pacer.slots (reservation :: reservations) = pacer.slots reservations := by
  have hfree : ¬ (pacer.grant reservation).IsLimited := not_not_intro h
  rw [slots, grants, List.filter_cons_of_neg (by simpa using hfree), next_of_unbounded h, slots]

/-- A reservation with a limit is granted when the next slot opens, or at once if that is open,
and the following slot opens when this one is over. -/
theorem slot_of_limited {free : ℕ} (hfree : pacer.nextFree = saturate free)
    (h : reservation.rate ≠ unbounded) (hslot : (pacer.grant reservation).slot < wordLimit) :
    (pacer.grant reservation).slot = max (pacer.grant reservation).made free ∧
      (pacer.next reservation).nextFree =
        saturate ((pacer.grant reservation).slot + reservation.interval) := by
  have hwait : (pacer.grant reservation).wait = _ := wait_of_limited h
  have hnext : (pacer.next reservation).nextFree = _ := nextFree_of_limited h
  rw [hfree, toNat_saturate, toNat_elapsed, ← made_grant] at hwait hnext
  unfold Grant.slot at hslot ⊢
  -- a slot below the limit is one at which neither the clock nor the pacer has saturated
  have hexact : (pacer.grant reservation).made + (pacer.grant reservation).wait =
      max (min free wordLimit) (min (pacer.grant reservation).made wordLimit) := by omega
  rw [hnext, ← hexact]
  exact ⟨by omega, rfl⟩

/-- The slots of a pacer follow one another, as long as none of them reaches the limit. -/
theorem follow_slots {free : ℕ} (hfree : pacer.nextFree = saturate free)
    {reservations : List Reservation}
    (h : ∀ grant ∈ pacer.slots reservations, grant.slot < wordLimit) :
    Follow free (pacer.slots reservations) := by
  induction reservations generalizing pacer free with
  | nil => trivial
  | cons reservation reservations ih =>
    by_cases hlimited : reservation.rate = unbounded
    · rw [slots_cons_of_unbounded hlimited] at h ⊢
      exact ih hfree h
    · rw [slots_cons_of_limited hlimited] at h ⊢
      obtain ⟨hslot, hnext⟩ := slot_of_limited hfree hlimited (h _ List.mem_cons_self)
      exact ⟨hslot, ih hnext fun grant hmem => h grant (List.mem_cons_of_mem _ hmem)⟩

end Pacer

namespace Follow

variable {free : ℕ} {before between rest : List Grant} {earlier later : Grant}

/-- Behind some slots the next ones follow one another as well. -/
theorem of_append (h : Follow free (before ++ rest)) : ∃ free, Follow free rest := by
  induction before generalizing free with
  | nil => exact ⟨free, h⟩
  | cons grant before ih => exact ih h.2

/-- Each slot opens when it is asked for, or else when the one before it is over. -/
theorem isChain {grants : List Grant} (h : Follow free grants) :
    grants.IsChain fun earlier later =>
      later.slot = max later.made (earlier.slot + earlier.reservation.interval) := by
  induction grants generalizing free with
  | nil => exact List.IsChain.nil
  | cons first grants ih =>
    cases grants with
    | nil => exact List.isChain_singleton _
    | cons second grants => exact List.isChain_cons_cons.mpr ⟨h.2.1, ih h.2⟩

/-- A slot leaves room for the intervals of the slots before it. -/
theorem free_add_sum_le (h : Follow free (before ++ later :: rest)) :
    free + (before.map fun grant => grant.reservation.interval).sum ≤ later.slot := by
  induction before generalizing free with
  | nil =>
    have hslot : later.slot = max later.made free := h.1
    simp only [List.map_nil, List.sum_nil]
    omega
  | cons grant before ih =>
    have hslot : grant.slot = max grant.made free := h.1
    have hrest := ih h.2
    rw [List.map_cons, List.sum_cons]
    omega

/-- Between two slots there is room for the intervals of the first and of those in between. -/
theorem slot_add_sum_le (h : Follow free (before ++ earlier :: (between ++ later :: rest))) :
    earlier.slot + ((earlier :: between).map fun grant => grant.reservation.interval).sum ≤
      later.slot := by
  obtain ⟨_, hfollow⟩ := h.of_append
  have hroom := free_add_sum_le hfollow.2
  rw [List.map_cons, List.sum_cons, ← Nat.add_assoc]
  exact hroom

end Follow

namespace Pacer

/-- **The law of slots.** Take any reservations with a new pacer, at any rates, as long as no slot
opens at the limit of a word. The first slot opens at once. Each further one opens when it is
asked for, or when the one before it is over, whichever is later. So between two slots there is
room for the intervals of the first and of all in between. And a reservation without a limit is
granted at once, while all others are answered as if it had not been made. -/
theorem slots_paced (anchor : Moment) (reservations : List Reservation)
    (h : ∀ grant ∈ (start anchor).slots reservations, grant.slot < wordLimit) :
    let pacer := start anchor
    let slots := pacer.slots reservations
    (∀ first ∈ slots.head?, first.slot = first.made) ∧
    (slots.IsChain fun earlier later =>
      later.slot = max later.made (earlier.slot + earlier.reservation.interval)) ∧
    (∀ before earlier between later rest,
      slots = before ++ earlier :: (between ++ later :: rest) →
      earlier.slot + ((earlier :: between).map fun grant => grant.reservation.interval).sum ≤
        later.slot) ∧
    ∀ before free rest, reservations = before ++ free :: rest → free.rate = unbounded →
      ∃ others, pacer.grants (before ++ rest) = pacer.grants before ++ others ∧
        pacer.grants reservations =
          pacer.grants before ++ ⟨free, free.now - anchor, 0⟩ :: others := by
  intro pacer slots
  have hfollow : Follow 0 slots := follow_slots rfl h
  refine ⟨?_, hfollow.isChain, ?_, ?_⟩
  · intro first hfirst
    obtain ⟨rest, hrest⟩ := List.head?_eq_some_iff.mp hfirst
    rw [hrest] at hfollow
    exact hfollow.1.trans (Nat.max_zero _)
  · intro before earlier between later rest heq
    exact Follow.slot_add_sum_le (heq ▸ hfollow)
  · rintro before free rest rfl hfree
    refine ⟨(pacer.after before).grants rest, grants_append before rest, ?_⟩
    rw [grants_append, grants, grant_of_unbounded hfree, next_of_unbounded hfree, after_anchor]
    rfl

/-- Four reservations, one of them without a limit and one at a rate that permits nothing. -/
theorem slots_paced_mixed :
    let reservations : List Reservation :=
      [⟨0, 4, 1⟩, ⟨0, unbounded, 10⟩, ⟨100000000, 0, 3⟩, ⟨200000000, 4, 2⟩]
    let slots := (start 0).slots reservations
    (∀ grant ∈ slots, grant.slot < wordLimit) ∧
      slots.map Grant.slot = [0, 250000000, 60250000000] ∧
      slots.IsChain fun earlier later =>
        later.slot = max later.made (earlier.slot + earlier.reservation.interval) := by
  intro reservations slots
  have hlimit : ∀ grant ∈ slots, grant.slot < wordLimit := by decide +kernel
  exact ⟨hlimit, by decide +kernel, (slots_paced 0 reservations hlimit).2.1⟩

end Pacer

end FlowControl
