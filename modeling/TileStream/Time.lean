import TileStream.Fault
import TileStream.Numeric.Binary

/-!
# Durations and instants

Both are exact in nanoseconds. A duration is at most `2 ^ 64` seconds; an instant is counted from an
arbitrary start and may lie before it. As a number of seconds a duration is a float, and reading a
duration from a float rounds to the nearest nanosecond, ties to even.

Waiting is left to a `Timer`, which is a parameter of whatever waits.
-/

namespace TileStream

/-- Nanoseconds in a second. -/
abbrev nanosPerSecond : Nat := 1000000000

/-- Nanoseconds in a millisecond. -/
abbrev nanosPerMilli : Nat := 1000000

/-- A length of time in nanoseconds. -/
structure Duration where
  nanos : Nat
  deriving DecidableEq, Repr

namespace Duration

/-- The first length of time that is too long for a duration. -/
abbrev limit : Nat := Checked.words64 * nanosPerSecond

/-- A duration of whole seconds. -/
def ofSeconds (s : Nat) : Duration := ⟨s * nanosPerSecond⟩

/-- A duration of whole milliseconds. -/
def ofMillis (ms : Nat) : Duration := ⟨ms * nanosPerMilli⟩

/-- A duration of some seconds and some nanoseconds, a fault when that is too long. -/
def ofParts (seconds nanos : Nat) : Checked Duration :=
  let d : Duration := ⟨seconds * nanosPerSecond + nanos⟩
  if d.nanos < limit then .ok d else .error .timeRange

/-- The whole seconds. -/
def seconds (d : Duration) : Nat := d.nanos / nanosPerSecond

/-- The whole milliseconds. -/
def millis (d : Duration) : Nat := d.nanos / nanosPerMilli

/-- The whole milliseconds, cut to 64 bits. -/
def millis64 (d : Duration) : Nat := d.millis % Checked.words64

/-- The longer of two durations. -/
def longer (a b : Duration) : Duration := ⟨max a.nanos b.nanos⟩

/-- `n` times the duration, a fault when that is too long. -/
def times (d : Duration) (n : Nat) : Checked Duration :=
  if d.nanos * n < limit then .ok ⟨d.nanos * n⟩ else .error .timeRange

/-- The duration in seconds. -/
def secondsFloat (d : Duration) : Float :=
  d.seconds.toFloat + (d.nanos % nanosPerSecond).toFloat / 1e9

/-- The duration of a number of seconds, to the nearest nanosecond. A fault when the number is
negative, not finite, or too large. -/
def ofSecondsFloat (x : Float) : Checked Duration :=
  match Binary.ofFloat? x with
  | none => .error .timeRange
  | some b =>
    let nanos := b.scaledSize nanosPerSecond
    if x < 0.0 || limit ≤ nanos then .error .timeRange else .ok ⟨nanos⟩

/-- The duration of an exact number of seconds, to the nearest nanosecond, with the same faults. -/
def ofSecondsRat (x : Rat) : Checked Duration :=
  let nanos := roundHalfEven (x.num.toNat * nanosPerSecond) x.den
  if x < 0 || limit ≤ nanos then .error .timeRange else .ok ⟨nanos⟩

end Duration

/-- A timer, as the milliseconds that it runs when it is set to some milliseconds. -/
structure Timer where
  runs : Nat → Nat

/-- The timer runs for as long as it is set to. -/
def Timer.Exact (timer : Timer) : Prop := ∀ ms, timer.runs ms = ms

/-- A point in time, in nanoseconds from a start. -/
structure Instant where
  nanos : Int
  deriving DecidableEq, Repr

namespace Instant

/-- The first instant too late to be represented. -/
abbrev limit : Int := 9223372036854775808 * 1000000000

/-- The instant `d` after `t`, a fault when it is too late. -/
def after (t : Instant) (d : Duration) : Checked Instant :=
  if t.nanos + d.nanos < limit then .ok ⟨t.nanos + d.nanos⟩ else .error .timeRange

/-- The time from `earlier` to `t`, nothing when `earlier` is later. -/
def since (t earlier : Instant) : Duration := ⟨(t.nanos - earlier.nanos).toNat⟩

/-- The later of two instants. -/
def later (a b : Instant) : Instant := ⟨max a.nanos b.nanos⟩

end Instant

/-- A time of day and date, in nanoseconds from the start of 1970. -/
structure CalendarTime where
  nanos : Int
  deriving DecidableEq, Repr

namespace CalendarTime

/-- The time that many seconds and nanoseconds after 1970 began, or before it; none when the whole
seconds leave the signed 64-bit range. A fault when the offset is too long for a duration. -/
def offset? (before : Bool) (seconds nanos : Nat) : Checked (Option CalendarTime) := do
  let d ← Duration.ofParts seconds nanos
  let t : Int := if before then -d.nanos else d.nanos
  let whole := t.fdiv nanosPerSecond
  return if -9223372036854775808 ≤ whole && whole < 9223372036854775808 then some ⟨t⟩ else none

/-- Whole milliseconds since 1970 began, cut to 64 bits; zero before it. -/
def epochMillis (t : CalendarTime) : Nat :=
  t.nanos.toNat / nanosPerMilli % Checked.words64

end CalendarTime

end TileStream
