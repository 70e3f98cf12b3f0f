/-!
# Faults

A fault ends a call without an answer: whole-number arithmetic left its word, a value was to be
kept between bounds that are no range, a time cannot be represented, or a text was to be cut inside a
character. Faults are not the errors
of the domain, which are answers; they show where a caller broke a promise.
-/

namespace TileStream

/-- Why a call cannot be answered at all. -/
inductive Fault where
  /-- A whole number does not fit its word. -/
  | overflow
  /-- The bounds of a clamp are not a range. -/
  | emptyRange
  /-- A duration or an instant is out of range. -/
  | timeRange
  /-- A text is cut inside a character or behind its end. -/
  | offset
  deriving DecidableEq, Repr

/-- The result of a call that may fault. -/
abbrev Checked (α : Type) := Except Fault α

namespace Checked

/-- `n`, when it is below `bound`. -/
def below (bound n : Nat) : Checked Nat :=
  if n < bound then .ok n else .error .overflow

/-- The number of values of an 8-bit word, `2 ^ 8`. -/
abbrev words8 : Nat := 256

/-- The number of values of a 32-bit word, `2 ^ 32`. -/
abbrev words32 : Nat := 4294967296

/-- The number of values of a 64-bit word, `2 ^ 64`. -/
abbrev words64 : Nat := 18446744073709551616

/-- `n`, when it fits 64 bits. -/
def word64 (n : Nat) : Checked Nat := below words64 n

end Checked

end TileStream
