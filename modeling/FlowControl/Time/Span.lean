import FlowControl.Decimal.Basic

/-!
# Spans of time

A span is a whole number of nanoseconds, less than `2 ^ 64` seconds of them. Conversions to
machine words saturate, and a number of seconds becomes the nearest span.
-/

namespace FlowControl

/-- The largest 64-bit word, where conversions and sums that do not fit end up. -/
def wordLimit : Nat := wordCount - 1

/-- A natural number as a word, the largest word if it does not fit. -/
def saturate (n : Nat) : UInt64 :=
  (min n wordLimit).toUInt64

/-- A number that does not fit a word is the largest word. -/
theorem toNat_saturate (n : Nat) : (saturate n).toNat = min n wordLimit := by
  unfold saturate wordLimit wordCount
  exact UInt64.toNat_ofNat_of_lt' (by simp only [UInt64.size]; omega)

/-- Nanoseconds in a second. -/
def nanosPerSecond : Nat := 1000000000

/-- Nanoseconds in a millisecond. -/
def nanosPerMilli : Nat := 1000000

/-- A length of time in nanoseconds, below `2 ^ 64` seconds. -/
structure Span where
  nanos : Nat
  nanos_lt : nanos < wordCount * nanosPerSecond
  deriving DecidableEq, Repr

namespace Span

/-- The span of no time. -/
def zero : Span := ⟨0, by decide⟩

/-- Whole seconds. -/
def ofSecs (secs : UInt64) : Span where
  nanos := secs.toNat * nanosPerSecond
  nanos_lt := by
    have := secs.toNat_lt
    simp only [wordCount, nanosPerSecond]
    omega

/-- Whole milliseconds. -/
def ofMillis (millis : UInt64) : Span where
  nanos := millis.toNat * nanosPerMilli
  nanos_lt := by
    have := millis.toNat_lt
    simp only [wordCount, nanosPerSecond, nanosPerMilli]
    omega

/-- Whole seconds and less than a second of nanoseconds are a span. -/
theorem secs_add_nanos_lt (secs : UInt64) {nanos : Nat} (h : nanos < nanosPerSecond) :
    secs.toNat * nanosPerSecond + nanos < wordCount * nanosPerSecond := by
  have := secs.toNat_lt
  simp only [wordCount, nanosPerSecond] at h ⊢
  omega

/-- Whole seconds and less than a second of nanoseconds. -/
def ofParts? (secs : UInt64) (nanos : Nat) : Option Span :=
  if h : nanos < nanosPerSecond then
    some ⟨secs.toNat * nanosPerSecond + nanos, secs_add_nanos_lt secs h⟩
  else
    none

/-- The whole seconds of a span. -/
def secs (s : Span) : Nat := s.nanos / nanosPerSecond

/-- The nanoseconds of a span past its whole seconds. -/
def subsecNanos (s : Span) : Nat := s.nanos % nanosPerSecond

/-- The whole milliseconds of a span, as a word. -/
def millis (s : Span) : UInt64 := saturate (s.nanos / nanosPerMilli)

/-- The nanoseconds of a span, as a word. -/
def nanosWord (s : Span) : UInt64 := saturate s.nanos

/-- The longer of two spans. -/
def max (s t : Span) : Span := if s.nanos < t.nanos then t else s

/-- The longer of two spans has the larger number of nanoseconds. -/
theorem nanos_max (s t : Span) : (s.max t).nanos = Max.max s.nanos t.nanos := by
  unfold max
  split <;> omega

/-- A span divided by a whole number, rounded down. -/
def div (s : Span) (n : Nat) : Span :=
  ⟨s.nanos / n, Nat.lt_of_le_of_lt (Nat.div_le_self ..) s.nanos_lt⟩

/-- The seconds of a span as a binary64 number: the whole seconds plus the rest, each
rounded, and the sum rounded again. -/
def seconds (s : Span) : Float :=
  s.secs.toUInt64.toFloat + s.subsecNanos.toUInt64.toFloat / 1e9

/-- The span nearest to a magnitude of seconds, a half nanosecond going to the even one. -/
def ofMagnitude? (m : Magnitude) : Option Span :=
  let nanos := Decimal.roundHalfEven (m.numerator * nanosPerSecond) m.denominator
  if h : nanos < wordCount * nanosPerSecond then some ⟨nanos, h⟩ else none

/-- The span nearest to a number of seconds. A number that is negative, too large or no
number has none. -/
def ofSeconds? (x : Float) : Option Span :=
  match FloatShape.ofFloat x with
  | .zero _ => some zero
  | .finite false m => ofMagnitude? m
  | _ => none

end Span

end FlowControl
