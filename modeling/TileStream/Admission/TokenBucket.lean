import TileStream.Geo.Tile
import TileStream.Numeric.Bounds
import TileStream.Time

/-!
# The token bucket

Between admission and assembly quads wait for tokens. The bucket starts full, fills at a steady rate
up to the rate itself, at least one token, and a quad leaves for a token, first come first served.
Time is given by the caller and may go backwards, which fills nothing.

The levels are numbers of any arithmetic that offers what `TokenArithmetic` lists. Floats run; exact
rationals are there to reason about.
-/

namespace TileStream

/-- What the levels of a token bucket have to offer. -/
class TokenArithmetic (τ : Type) where
  /-- One token. -/
  one : τ
  /-- How much may be missing from a token. -/
  slack : τ
  /-- The rate that a float stands for. -/
  ofFloat : Float → τ
  /-- Whether a number can be a rate. -/
  isRate : τ → Bool
  add : τ → τ → τ
  sub : τ → τ → τ
  mul : τ → τ → τ
  larger : τ → τ → τ
  smaller : τ → τ → τ
  atLeast : τ → τ → Bool
  /-- The seconds of a duration. -/
  seconds : Duration → τ
  /-- The time in which that many tokens come at a rate. -/
  wait : (tokens rate : τ) → Checked Duration

instance : TokenArithmetic Float where
  one := 1.0
  slack := 1e-9
  ofFloat x := x
  isRate x := x.isFinite && x > 0.0
  add := (· + ·)
  sub := (· - ·)
  mul := (· * ·)
  larger := Numeric.larger
  smaller := Numeric.smaller
  atLeast a b := a ≥ b
  seconds d := d.secondsFloat
  wait tokens rate := Duration.ofSecondsFloat (tokens / rate)

instance : TokenArithmetic Rat where
  one := 1
  slack := 1 / 1000000000
  ofFloat := Binary.ratOfFloat
  isRate x := 0 < x
  add := (· + ·)
  sub := (· - ·)
  mul := (· * ·)
  larger a b := if a ≤ b then b else a
  smaller a b := if a ≤ b then a else b
  atLeast a b := b ≤ a
  seconds d := d.nanos / nanosPerSecond
  wait tokens rate := Duration.ofSecondsRat (tokens / rate)

/-- A bucket of tokens and the quads that wait for them. -/
structure TokenBucket (τ : Type) where
  rate : τ
  capacity : τ
  tokens : τ
  refilledAt : Option Instant
  pending : List QuadId
  deriving Repr

namespace TokenBucket

open TokenArithmetic

variable {τ : Type} [TokenArithmetic τ]

/-- A full bucket with that rate; one token a second when it cannot be a rate. -/
def ofRate (rate : τ) : TokenBucket τ :=
  let rate := if isRate rate then rate else one
  let capacity := larger rate one
  ⟨rate, capacity, capacity, none, []⟩

/-- The bucket with a quad waiting last. -/
def request (b : TokenBucket τ) (quad : QuadId) : TokenBucket τ :=
  { b with pending := b.pending ++ [quad] }

/-- The tokens in the bucket at a time. -/
def tokensAt (b : TokenBucket τ) (now : Instant) : τ :=
  match b.refilledAt with
  | none => b.tokens
  | some last => smaller (add b.tokens (mul (seconds (now.since last)) b.rate)) b.capacity

/-- The bucket filled up to a time. -/
def refill (b : TokenBucket τ) (now : Instant) : TokenBucket τ :=
  { b with
    tokens := b.tokensAt now
    refilledAt := some (match b.refilledAt with
      | none => now
      | some last => last.later now) }

/-- Whether a level is enough for a quad. -/
def hasToken (tokens : τ) : Bool := atLeast (add tokens slack) one

/-- How a level serves a line of quads: those that leave, those that stay, and the level after. -/
def serve (tokens : τ) : List QuadId → List QuadId × List QuadId × τ
  | [] => ([], [], tokens)
  | quad :: rest =>
    if hasToken tokens then
      let (leave, stay, level) := serve (sub tokens one) rest
      (quad :: leave, stay, level)
    else ([], quad :: rest, tokens)

/-- Lets as many quads go as the tokens at a time allow. -/
def poll (b : TokenBucket τ) (now : Instant) : TokenBucket τ × List QuadId :=
  let full := b.refill now
  let (leave, stay, level) := serve full.tokens full.pending
  ({ full with tokens := level, pending := stay }, leave)

/-- When the next quad can go, none when no quad waits. A fault when that time is out of range. -/
def nextReleaseAt (b : TokenBucket τ) (now : Instant) : Checked (Option Instant) :=
  if b.pending.isEmpty then .ok none
  else
    let tokens := b.tokensAt now
    if hasToken tokens then .ok (some now)
    else do return some (← now.after (← wait (sub one tokens) b.rate))

/-- The number of quads that wait. -/
def size (b : TokenBucket τ) : Nat := b.pending.length

/-! ### Who waits -/

/-- Serving a line splits it. -/
theorem serve_append (tokens : τ) (line : List QuadId) :
    (serve tokens line).1 ++ (serve tokens line).2.1 = line := by
  induction line generalizing tokens with
  | nil => rfl
  | cons quad rest ih =>
    unfold serve
    split
    · exact congrArg (quad :: ·) (ih _)
    · rfl

/-- **A poll lets quads go from the front of the line.** -/
theorem pending_poll (b : TokenBucket τ) (now : Instant) :
    (b.poll now).2 ++ (b.poll now).1.pending = b.pending :=
  serve_append _ _

omit [TokenArithmetic τ] in
@[simp] theorem size_request (b : TokenBucket τ) (quad : QuadId) :
    (b.request quad).size = b.size + 1 := by
  simp [request, size]

end TokenBucket

end TileStream
