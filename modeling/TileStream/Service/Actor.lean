import TileStream.Service.Meters

/-!
# The service

One actor owns the pipeline. It is told of cameras and commands through a handle, starts the fetches
that the pipeline asks for, takes their results, and sends the deltas to whoever receives them. All
that is on its way from one to the other is part of the state: the camera not looked at yet, the
commands, the running fetches, the results, the deltas.

* The actor's moves are `Service.obey`, `Service.look`, `Service.take` and `Service.wake`; each one
  calls the pipeline and ends in `Service.absorb`. `Service.act?` is the actor's choice: commands
  first, then the camera, then results, then the token bucket.
* After each move the actor sets an alarm to when the token bucket is due. The alarm is not reckoned
  anew while the actor waits: a bucket that turns out to be full enough earlier is left alone.
* `Service.Step` relates a state to all that can come next, whoever moves and in whatever order.
-/

namespace TileStream

/-- What the actor is told besides cameras. -/
inductive Command where
  | setOnline (online : Bool)
  | stop
  deriving DecidableEq, Repr

/-- The pipeline with all that is on its way to it and from it. -/
structure Service (τ κ : Type) where
  pipeline : Pipeline τ κ
  /-- The latest camera, unless the actor has looked at it. -/
  camera : Option κ
  /-- The commands not obeyed yet, the oldest first. -/
  commands : List Command
  /-- The fetches that have no result yet. -/
  running : List Fetch
  /-- The results not taken yet, the oldest first. -/
  results : List (Fetch × Outcome)
  /-- The deltas not received yet, the oldest first. -/
  deltas : List ResidencyDelta
  /-- When the actor sees to the token bucket if nothing comes before, as reckoned after its last
  move. -/
  alarm : Option Instant
  /-- Whether someone holds the handle. -/
  isHeld : Bool
  /-- Whether someone receives the deltas. -/
  isHeard : Bool
  /-- Whether the actor runs. -/
  isActive : Bool
  /-- Every fetch started so far, the oldest first. -/
  started : List Fetch
  meters : Meters

namespace Service

variable {τ κ : Type} [TokenArithmetic τ]

/-- A service that has done nothing yet. -/
def ofPipeline (pipeline : Pipeline τ κ) : Service τ κ :=
  { pipeline, camera := none, commands := [], running := [], results := [], deltas := []
    alarm := none, isHeld := true, isHeard := true, isActive := true, started := []
    meters := .empty }

/-- The service after its actor has stopped. What still runs is abandoned. -/
def halt (s : Service τ κ) : Service τ κ :=
  { s with isActive := false, running := [], results := [], alarm := none }

/-- Hands a delta to the receiver. Without one the actor stops. -/
def send (s : Service τ κ) (delta : ResidencyDelta) : Service τ κ :=
  if delta.isEmpty then s
  else if s.isHeard then { s with deltas := s.deltas ++ [delta] }
  else s.halt

/-- Sets the alarm, unless the actor has stopped. -/
def setAlarm (s : Service τ κ) (now : Instant) : Checked (Service τ κ) := do
  if s.isActive then return { s with alarm := ← s.pipeline.nextDispatchAt now } else return s

/-- Acts on a call of the pipeline: starts its fetches, moves the meters, sends its delta, and sets
the alarm. -/
def absorb (s : Service τ κ) (t : Turn τ κ) (now : Instant) : Checked (Service τ κ) :=
  let moved : Service τ κ := { s with
    pipeline := t.pipeline
    running := s.running ++ t.effects.fetches
    started := s.started ++ t.effects.fetches
    meters := s.meters.countCall t.effects t.pipeline.tally }
  (moved.send t.effects.delta).setAlarm now

/-- The actor obeys a command. -/
def obey (s : Service τ κ) (command : Command) (now : Instant) : Checked (Service τ κ) :=
  match command with
  | .setOnline online => do s.absorb (← s.pipeline.setOnline online now) now
  | .stop => .ok s.halt

/-- The actor looks at a camera. -/
def look (s : Service τ κ) (camera : κ) (now : Instant) : Checked (Service τ κ) := do
  s.absorb (← s.pipeline.updateCamera camera now) now

/-- The actor takes the result of a fetch. -/
def take (s : Service τ κ) (fetch : Fetch) (outcome : Outcome) (now : Instant) :
    Checked (Service τ κ) := do
  let counted := { s with meters := s.meters.countFetch fetch.layer outcome }
  counted.absorb (← s.pipeline.deliver fetch.tile fetch.layer outcome now) now

/-- The actor lets the token bucket release what it may. -/
def wake (s : Service τ κ) (now : Instant) : Checked (Service τ κ) := do
  s.absorb (← s.pipeline.poll now) now

/-- What the actor does next at a time, nothing when it has to wait. -/
def act? (s : Service τ κ) (now : Instant) : Option (Checked (Service τ κ)) :=
  if !s.isActive then none
  else
    match s.commands, s.camera, s.results with
    | command :: commands, _, _ => some ({ s with commands }.obey command now)
    | [], camera, results =>
      if !s.isHeld then some (.ok s.halt)
      else
        match camera, results with
        | some camera, _ => some ({ s with camera := none }.look camera now)
        | none, (fetch, outcome) :: results =>
          some ({ s with results }.take fetch outcome now)
        | none, [] => if s.alarm.any (·.nanos ≤ now.nanos) then some (s.wake now) else none

/-! ### The other parties -/

/-- The holder of the handle shows a camera, in place of one not looked at yet. -/
def point (s : Service τ κ) (camera : κ) : Service τ κ := { s with camera := some camera }

/-- The holder of the handle gives a command. -/
def tell (s : Service τ κ) (command : Command) : Service τ κ :=
  { s with commands := s.commands ++ [command] }

/-- The handle is given up. -/
def release (s : Service τ κ) : Service τ κ := { s with isHeld := false }

/-- The receiver is given up, and the deltas on their way to it are lost. -/
def stopListening (s : Service τ κ) : Service τ κ := { s with isHeard := false, deltas := [] }

/-- A running fetch comes to an end. -/
def resolve (s : Service τ κ) (fetch : Fetch) (outcome : Outcome) : Service τ κ :=
  if s.running.contains fetch then
    { s with running := s.running.erase fetch, results := s.results ++ [(fetch, outcome)] }
  else s

/-- The outcome of a fetch that took longer than it may. -/
def timedOut (limit : Duration) : Outcome :=
  .error (.transient ("timed out after " ++ toString limit.millis ++ " ms"))

/-- What can be seen of a step from outside. -/
inductive Event (κ : Type) where
  /-- A camera was shown. -/
  | shown (camera : κ)
  /-- A camera was looked at. -/
  | seen (camera : κ)
  /-- A delta was received. -/
  | received (delta : ResidencyDelta)
  /-- Any other move. -/
  | other

/-- The steps of a service: the moves of the actor and of the other parties, in any order. -/
inductive Step : Service τ κ → Event κ → Service τ κ → Prop
  | point (s : Service τ κ) (camera : κ) (held : s.isHeld) : Step s (.shown camera) (s.point camera)
  | tell (s : Service τ κ) (command : Command) (held : s.isHeld) : Step s .other (s.tell command)
  | release (s : Service τ κ) : Step s .other s.release
  | stopListening (s : Service τ κ) : Step s .other s.stopListening
  | receive (s : Service τ κ) (delta : ResidencyDelta) (deltas : List ResidencyDelta)
      (heard : s.isHeard) (first : s.deltas = delta :: deltas) :
      Step s (.received delta) { s with deltas }
  | resolve (s : Service τ κ) (fetch : Fetch) (outcome : Outcome) (runs : fetch ∈ s.running) :
      Step s .other (s.resolve fetch outcome)
  | obey (s s' : Service τ κ) (command : Command) (commands : List Command) (now : Instant)
      (active : s.isActive) (first : s.commands = command :: commands)
      (done : { s with commands }.obey command now = .ok s') : Step s .other s'
  | abandon (s : Service τ κ) (active : s.isActive) (idle : s.commands = [])
      (given_up : s.isHeld = false) : Step s .other s.halt
  | look (s s' : Service τ κ) (camera : κ) (now : Instant) (active : s.isActive)
      (fresh : s.camera = some camera) (done : { s with camera := none }.look camera now = .ok s') :
      Step s (.seen camera) s'
  | take (s s' : Service τ κ) (fetch : Fetch) (outcome : Outcome)
      (results : List (Fetch × Outcome)) (now : Instant) (active : s.isActive)
      (first : s.results = (fetch, outcome) :: results)
      (done : { s with results }.take fetch outcome now = .ok s') : Step s .other s'
  | wake (s s' : Service τ κ) (alarm now : Instant) (active : s.isActive)
      (set : s.alarm = some alarm) (due : alarm.nanos ≤ now.nanos)
      (done : s.wake now = .ok s') : Step s .other s'

end Service

end TileStream
