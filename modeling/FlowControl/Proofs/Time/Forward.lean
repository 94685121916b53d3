import FlowControl.Time.ManualClock
import Mathlib.Algebra.Ring.Nat

/-!
# Whether a manual clock goes forward

A manual clock is shared. Any of its holders lets time pass on it, and what one of them reads all
the others would read. A span that has too many milliseconds for a word counts as the largest word
of them, but the sum on the clock wraps around. So the clock goes forward exactly as long as that
sum fits a word, and from the largest word on any time that passes sets it back.
-/

namespace FlowControl.ManualClock

/-- What a holder of a clock does with it, other than to set it. Holders are told apart by
numbers. -/
inductive Use where
  /-- A holder lets time pass. -/
  | advance (holder : ℕ) (span : Span)
  /-- A holder sleeps. -/
  | sleep (holder : ℕ) (span : Span)
  /-- A holder reads the clock. -/
  | read (holder : ℕ)
  deriving DecidableEq, Repr

/-- The span by which a use moves the clock, if it moves it. -/
def Use.span? : Use → Option Span
  | .advance _ span => some span
  | .sleep _ span => some span
  | .read _ => none

/-- The clock after one use. -/
def use (clock : ManualClock) : Use → ManualClock
  | .advance _ span => clock.move (.advance span)
  | .sleep _ span => clock.move (.sleep span)
  | .read _ => clock

/-- What the holders read, in the order in which they read it. -/
def readings : ManualClock → List Use → List (ℕ × UInt64)
  | _, [] => []
  | clock, .read holder :: uses => (holder, clock.now) :: readings clock uses
  | clock, use :: uses => readings (clock.use use) uses

/-- The milliseconds of spans, each at most the largest word. -/
def passed : List Span → ℕ
  | [] => 0
  | span :: spans => span.millis.toNat + passed spans

variable {clock : ManualClock} {use : Use} {uses : List Use} {span : Span} {spans : List Span}

/-- The milliseconds of spans add up. -/
theorem passed_cons : passed (span :: spans) = span.millis.toNat + passed spans := rfl

/-- A use reads the clock or lets a span pass. -/
theorem Use.isRead_or_span? (use : Use) :
    (∃ holder, use = .read holder) ∨ ∃ span, use.span? = some span := by
  cases use with
  | advance holder span => exact Or.inr ⟨span, rfl⟩
  | sleep holder span => exact Or.inr ⟨span, rfl⟩
  | read holder => exact Or.inl ⟨holder, rfl⟩

/-- Whoever lets a span pass, and in whichever way, moves the clock by its milliseconds. -/
theorem use_of_span? (h : use.span? = some span) : clock.use use = clock.advance span := by
  cases use with
  | advance holder span' => exact congrArg clock.advance (Option.some_inj.mp h)
  | sleep holder span' => exact congrArg clock.advance (Option.some_inj.mp h)
  | read holder => cases h

/-- A span that passes is not seen before the next reading. -/
theorem readings_of_span? (h : use.span? = some span) :
    clock.readings (use :: uses) = (clock.advance span).readings uses := by
  rw [← use_of_span? h]
  cases use with
  | advance holder span' => rfl
  | sleep holder span' => rfl
  | read holder => cases h

/-- A span moves the clock by its milliseconds, and the sum wraps around. -/
theorem toNat_advance (clock : ManualClock) (span : Span) :
    (clock.advance span).now.toNat = (clock.now.toNat + span.millis.toNat) % wordCount :=
  UInt64.toNat_add _ _

/-- The clock shows what has passed, up to a multiple of the number of words. -/
theorem toNat_now_foldl (clock : ManualClock) (uses : List Use) :
    (uses.foldl ManualClock.use clock).now.toNat =
      (clock.now.toNat + passed (uses.filterMap Use.span?)) % wordCount := by
  induction uses generalizing clock with
  | nil => exact (Nat.mod_eq_of_lt clock.now.toNat_lt).symm
  | cons use uses ih =>
    rw [List.foldl_cons, ih]
    obtain ⟨holder, rfl⟩ | ⟨span, hspan⟩ := use.isRead_or_span?
    · rfl
    · rw [List.filterMap_cons_some hspan, passed_cons, use_of_span? hspan, toNat_advance,
        Nat.mod_add_mod, Nat.add_assoc]

/-! ### While the sum fits a word -/

/-- A sum that fits a word is what the clock shows. -/
theorem toNat_advance_of_lt (hfits : clock.now.toNat + passed (span :: spans) < wordCount) :
    (clock.advance span).now.toNat = clock.now.toNat + span.millis.toNat := by
  rw [passed_cons, ← Nat.add_assoc] at hfits
  rw [toNat_advance, Nat.mod_eq_of_lt (Nat.lt_of_le_of_lt (Nat.le_add_right _ _) hfits)]

/-- What is left of such a sum after a span has passed fits a word as well. -/
theorem advance_add_passed_lt (hfits : clock.now.toNat + passed (span :: spans) < wordCount) :
    (clock.advance span).now.toNat + passed spans < wordCount := by
  rwa [toNat_advance_of_lt hfits, Nat.add_assoc, ← passed_cons]

/-- No reading is behind the clock as it stood before. -/
theorem le_of_mem_readings
    (hfits : clock.now.toNat + passed (uses.filterMap Use.span?) < wordCount) :
    ∀ reading ∈ clock.readings uses, clock.now ≤ reading.2 := by
  induction uses generalizing clock with
  | nil => exact fun _ h => absurd h List.not_mem_nil
  | cons use uses ih =>
    obtain ⟨holder, rfl⟩ | ⟨span, hspan⟩ := use.isRead_or_span?
    · exact List.forall_mem_cons.mpr ⟨UInt64.le_refl _, ih hfits⟩
    · rw [List.filterMap_cons_some hspan] at hfits
      rw [readings_of_span? hspan]
      intro reading hreading
      have hle := ih (advance_add_passed_lt hfits) reading hreading
      rw [UInt64.le_iff_toNat_le, toNat_advance_of_lt hfits] at hle
      exact UInt64.le_iff_toNat_le.mpr (Nat.le_trans (Nat.le_add_right _ _) hle)

/-- Readings ascend while the sum fits a word. -/
theorem pairwise_readings
    (hfits : clock.now.toNat + passed (uses.filterMap Use.span?) < wordCount) :
    (clock.readings uses).Pairwise fun earlier later => earlier.2 ≤ later.2 := by
  induction uses generalizing clock with
  | nil => exact .nil
  | cons use uses ih =>
    obtain ⟨holder, rfl⟩ | ⟨span, hspan⟩ := use.isRead_or_span?
    · exact .cons (le_of_mem_readings hfits) (ih hfits)
    · rw [List.filterMap_cons_some hspan] at hfits
      rw [readings_of_span? hspan]
      exact ih (advance_add_passed_lt hfits)

/-! ### When the sum wraps around -/

/-- A holder reads the clock before each span that passes and after the last one. -/
def watching : List Span → List Use
  | [] => [.read 0]
  | span :: spans => .read 0 :: .advance 0 span :: watching spans

/-- A clock that is watched moves by the spans, for reading does not move it. -/
theorem filterMap_watching (spans : List Span) :
    (watching spans).filterMap Use.span? = spans := by
  induction spans with
  | nil => rfl
  | cons span spans ih => exact congrArg (span :: ·) ih

/-- The first of these readings is that of the clock as it stands. -/
theorem now_mem_readings_watching (clock : ManualClock) (spans : List Span) :
    (0, clock.now) ∈ clock.readings (watching spans) := by
  cases spans <;> exact List.mem_cons_self

/-- Who reads the clock all the time sees it go back as soon as the sum wraps around. -/
theorem lt_wordCount_of_pairwise
    (h : (clock.readings (watching spans)).Pairwise fun earlier later => earlier.2 ≤ later.2) :
    clock.now.toNat + passed spans < wordCount := by
  induction spans generalizing clock with
  | nil => exact clock.now.toNat_lt
  | cons span spans ih =>
    obtain ⟨hle, hrest⟩ := List.pairwise_cons.mp h
    have hnext : clock.now ≤ (clock.advance span).now :=
      hle _ (now_mem_readings_watching (clock.advance span) spans)
    have hsum : (clock.advance span).now.toNat + passed spans < wordCount := ih hrest
    -- a span is less than the number of words, so a sum that wraps around ends below its start
    have hspan := span.millis.toNat_lt
    rw [UInt64.le_iff_toNat_le] at hnext
    rw [toNat_advance] at hnext hsum
    rw [passed_cons]
    unfold wordCount at *
    omega

/-- **When a manual clock goes forward.** Whoever lets time pass on it, it shows where it started
and what has passed since, reduced to a word. All that its holders can read while some spans pass
ascends if and only if the start and the milliseconds of the spans together fit a word. -/
theorem readings_ascend_iff (start : UInt64) :
    (∀ uses : List Use, (uses.foldl ManualClock.use ⟨start⟩).now.toNat =
      (start.toNat + passed (uses.filterMap Use.span?)) % 2 ^ 64) ∧
    ∀ spans : List Span,
      (∀ uses : List Use, uses.filterMap Use.span? = spans →
        (readings ⟨start⟩ uses).Pairwise fun earlier later => earlier.2 ≤ later.2) ↔
      start.toNat + passed spans < 2 ^ 64 := by
  refine ⟨toNat_now_foldl ⟨start⟩, fun spans => ⟨fun h => ?_, fun hfits uses huses => ?_⟩⟩
  · exact lt_wordCount_of_pairwise (h _ (filterMap_watching spans))
  · subst huses
    exact pairwise_readings hfits

/-- One holder lets a millisecond pass and reads the largest word. Another one sleeps for a
millisecond and reads zero. -/
theorem reading_goes_back :
    let uses : List Use :=
      [.advance 0 (.ofMillis 1), .read 0, .sleep 1 (.ofMillis 1), .read 1]
    readings ⟨18446744073709551614⟩ uses = [(0, 18446744073709551615), (1, 0)] ∧
      ¬ (readings ⟨18446744073709551614⟩ uses).Pairwise fun earlier later =>
        earlier.2 ≤ later.2 := by
  decide

end FlowControl.ManualClock
