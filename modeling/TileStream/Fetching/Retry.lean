import TileStream.Numeric.Total
import TileStream.Record.Outcome
import TileStream.Settings.Loader

/-!
# Trying fetches again

A fetch that fails in a way that may pass is tried again after a pause. Each pause is twice as long
as the one before, up to a longest one. Any other outcome ends the fetch at once, and so does the
last try that the plan allows.

* `RetryPlan.run` makes a fetch against a source given as the stream of its answers.
* `Retried.took` and `Retried.starts` tell how the time went, on the timer that ran the pauses.
-/

namespace TileStream

/-- How often a fetch is tried, and how long the pauses between the tries are in milliseconds. -/
structure RetryPlan where
  tries : Nat
  firstPause : Nat
  longestPause : Nat
  deriving DecidableEq, Repr

/-- What came of one try, and how long it took. -/
structure Attempt where
  outcome : Outcome
  took : Duration

/-- The course of a fetch: its tries, the pauses between them in milliseconds, and its outcome. -/
structure Retried where
  attempts : List Attempt
  pauses : List Nat
  outcome : Outcome

namespace RetryPlan

/-- The plan with at least one try, a first pause of at least a millisecond, and no longest pause
shorter than the first. Pauses are cut to whole milliseconds in 64 bits. -/
def ofPauses (tries : Nat) (first longest : Duration) : RetryPlan :=
  let firstPause := max first.millis64 1
  ⟨max tries 1, firstPause, max longest.millis64 firstPause⟩

/-- The plan that the settings ask for. -/
def ofSettings (s : LoaderSettings) : RetryPlan :=
  ofPauses s.fetchMaxAttempts (.ofMillis s.fetchRetryInitialMillis)
    (.ofMillis s.fetchRetryMaxMillis)

/-- The pause after a pause: twice as long as far as 64 bits go, and never above the longest. -/
def nextPause (p : RetryPlan) (pause : Nat) : Nat :=
  min (min (2 * pause) (Checked.words64 - 1)) p.longestPause

/-- The course of a fetch from its `i`-th try on, when `left` more tries are allowed after it and
the next pause is `pause`. -/
def runFrom (p : RetryPlan) (answer : Nat → Attempt) : (left i pause : Nat) → Retried
  | 0, i, _ => ⟨[answer i], [], (answer i).outcome⟩
  | left + 1, i, pause =>
    let a := answer i
    if a.outcome.isTransient then
      let rest := p.runFrom answer left (i + 1) (p.nextPause pause)
      ⟨a :: rest.attempts, pause :: rest.pauses, rest.outcome⟩
    else ⟨[a], [], a.outcome⟩

/-- The course of a fetch whose `i`-th try is answered by `answer i`. -/
def run (p : RetryPlan) (answer : Nat → Attempt) : Retried :=
  p.runFrom answer (p.tries - 1) 0 p.firstPause

end RetryPlan

namespace Retried

/-- The milliseconds that the pauses last when they are waited for on a timer. -/
def waits (r : Retried) (timer : Timer) : List Nat := r.pauses.map timer.runs

/-- How long the fetch took, pauses included. -/
def took (r : Retried) (timer : Timer) : Duration :=
  ⟨Numeric.total (r.attempts.map fun a => a.took.nanos) +
    Numeric.total (r.waits timer) * nanosPerMilli⟩

/-- The starts of tries that follow one another after waits of the given milliseconds, the first one
at `t`. -/
def startsFrom (t : Nat) : List Attempt → List Nat → List Duration
  | [], _ => []
  | a :: as, waits =>
    ⟨t⟩ :: startsFrom (t + a.took.nanos + waits.headD 0 * nanosPerMilli) as waits.tail

/-- When each try starts, from the start of the first. -/
def starts (r : Retried) (timer : Timer) : List Duration := startsFrom 0 r.attempts (r.waits timer)

end Retried

end TileStream
