import TileStream.Service.Actor

/-!
# Rehearsals

A rehearsal runs a service on a clock of whole milliseconds that stands still while anything can
run. A made-up loader says how long each fetch takes and what comes of it; a fetch that would take
longer than the limit ends at the limit as timed out. The loader waits on a timer, and so does who
moves the clock on.

* `Rehearsal.settle` runs all that can run at the present time.
* `Rehearsal.advanceTo` moves the clock from event to event and settles at each.
-/

namespace TileStream

/-- When a fetch ends, on the clock of a rehearsal, and with what outcome. -/
structure Appointment where
  due : Nat
  fetch : Fetch
  outcome : Outcome

/-- How long a fetch takes in milliseconds, and what comes of it. -/
structure Delivery where
  after : Nat
  outcome : Outcome

/-- A service under a clock, with a made-up loader. -/
structure Rehearsal (τ κ : Type) where
  service : Service τ κ
  clock : Nat
  agenda : List Appointment
  timer : Timer
  loader : Fetch → Delivery
  limit : Nat

namespace Rehearsal

variable {τ κ : Type} [TokenArithmetic τ]

/-- A rehearsal of a service that has done nothing yet. -/
def ofPipeline (pipeline : Pipeline τ κ) (timer : Timer) (loader : Fetch → Delivery)
    (limit : Nat) : Rehearsal τ κ :=
  ⟨.ofPipeline pipeline, 0, [], timer, loader, limit⟩

/-- The present time. -/
def now (r : Rehearsal τ κ) : Instant := ⟨r.clock * nanosPerMilli⟩

/-- When a fetch that starts now ends, and how. -/
def appointment (r : Rehearsal τ κ) (fetch : Fetch) : Appointment :=
  let d := r.loader fetch
  let after := r.timer.runs d.after
  if after ≤ r.limit then ⟨r.clock + after, fetch, d.outcome⟩
  else ⟨r.clock + r.limit, fetch, Service.timedOut (.ofMillis r.limit)⟩

/-- The rehearsal after the service has moved: the fetches it started are put on the agenda. -/
def follow (r : Rehearsal τ κ) (service : Service τ κ) : Rehearsal τ κ :=
  let fresh := service.started.drop r.service.started.length
  { r with service, agenda := r.agenda ++ fresh.map r.appointment }

/-- Lets the actor act at the present time, at most `moves` times. -/
def act (r : Rehearsal τ κ) : (moves : Nat) → Checked (Rehearsal τ κ)
  | 0 => .ok r
  | moves + 1 =>
    match r.service.act? r.now with
    | none => .ok r
    | some move => do (r.follow (← move)).act moves

/-- Lets the actor act until it has to wait. It makes a move for each command and each result, one
for the camera, one for the token bucket, and one to stop. -/
def actAll (r : Rehearsal τ κ) : Checked (Rehearsal τ κ) :=
  r.act (r.service.commands.length + r.service.results.length + 3)

/-- Ends the fetches that are due. -/
def keepAppointments (r : Rehearsal τ κ) : Rehearsal τ κ :=
  let (due, later) := r.agenda.partition fun a => a.due ≤ r.clock
  { r with
    service := due.foldl (fun s a => s.resolve a.fetch a.outcome) r.service
    agenda := later }

/-- Lets the actor act and ends fetches that are due, in turn, at most `rounds` times. -/
def settleFor (r : Rehearsal τ κ) : (rounds : Nat) → Checked (Rehearsal τ κ)
  | 0 => .ok r
  | rounds + 1 => do
    let r ← r.keepAppointments.actAll
    if r.agenda.any (·.due ≤ r.clock) then r.settleFor rounds else return r

/-- Runs all that can run at the present time. Fetches that end at once may let quads start that
waited in line; without a new camera no more of them start than wait. -/
def settle (r : Rehearsal τ κ) : Checked (Rehearsal τ κ) := do
  let r ← r.keepAppointments.actAll
  r.settleFor (r.service.pipeline.turn.waiting + 2)

/-- The first millisecond that is no earlier than an instant. -/
def millisecondOf (t : Instant) : Nat := ((t.nanos + (nanosPerMilli - 1)) / nanosPerMilli).toNat

/-- The time of the next event, of those after the present time: the end of a fetch, or the alarm of
the actor, which rings on a whole millisecond. -/
def nextEvent? (r : Rehearsal τ κ) : Option Nat :=
  let times := r.agenda.map (·.due) ++ (r.service.alarm.map millisecondOf).toList
  (times.filter fun t => r.clock < t).min?

/-- Moves the clock to `stop`, settling at each event on the way. -/
def advanceTo (r : Rehearsal τ κ) (stop : Nat) : Checked (Rehearsal τ κ) :=
  match r.nextEvent? with
  | none => .ok { r with clock := max r.clock stop }
  | some next =>
    if _h : r.clock < next ∧ next ≤ stop then
      match { r with clock := next }.settle with
      | .error e => .error e
      | .ok r' => advanceTo { r' with clock := next } stop
    else .ok { r with clock := max r.clock stop }
termination_by stop - r.clock

/-- Settles, then moves the clock as far as the timer runs that is set to so many milliseconds. -/
def advance (r : Rehearsal τ κ) (ms : Nat) : Checked (Rehearsal τ κ) := do
  let r ← r.settle
  r.advanceTo (r.clock + r.timer.runs ms)

end Rehearsal

end TileStream
