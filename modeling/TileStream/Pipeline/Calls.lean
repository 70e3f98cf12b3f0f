import TileStream.Pipeline.Turn

/-!
# Calls of the pipeline

The pipeline does nothing by itself and reads no clock: each call takes the time and returns the new
pipeline with what its owner has to act on.

* `Pipeline.updateCamera`, `Pipeline.deliver`, `Pipeline.poll` and `Pipeline.setOnline` are the calls.
* `Turn.dispatch` ends every call but the idle ones. It lets quads leave the token bucket in rounds,
  until a round finds none that may go. A round takes at least one quad out of the line and starting
  it puts none in, so the rounds come to an end whatever the arithmetic of the tokens does.
-/

namespace TileStream

/-- How many quads stand where. -/
structure Tally where
  desired : Nat
  cached : Nat
  resident : Nat
  inFlight : Nat
  queued : Nat
  rateLimited : Nat
  loadingTiles : Nat
  deriving DecidableEq, Repr

namespace Turn

variable {τ κ : Type} [TokenArithmetic τ]

/-- Starts every quad that may leave the token bucket. -/
def dispatch (now : Instant) (t : Turn τ κ) : Checked (Turn τ κ) :=
  match _hp : t.pipeline.bucket.poll now with
  | (bucket, []) => .ok { t with pipeline.bucket := bucket }
  | (bucket, quad :: rest) =>
    match _hs : (quad :: rest).foldlM (assemble now) { t with pipeline.bucket := bucket } with
    | .error e => .error e
    | .ok t' => dispatch now t'
termination_by t.waiting
decreasing_by
  have line := congrArg List.length (TokenBucket.pending_poll t.pipeline.bucket now)
  rw [_hp] at line
  have kept := foldlM_keeps (fun _ _ _ => waiting_assemble) _ _hs
  simp only [waiting, TokenBucket.size, List.length_append, List.length_cons] at line kept ⊢
  omega

/-- Asks for a slot for a quad. An admitted quad goes on to wait for a token. -/
def submit (t : Turn τ κ) (quad : QuadId) : Turn τ κ :=
  let known := t.pipeline.slots.contains quad
  let (slots, admitted) := t.pipeline.slots.request quad
  let t := { t with pipeline.slots := slots }.await admitted
  if known then t else t.note (.accepted quad)

end Turn

namespace Pipeline

variable {τ κ : Type} [TokenArithmetic τ]

/-- A pipeline at rest, unless the settings cannot be used. It goes no deeper than the settings and
the coverage allow. -/
def ofSettings (s : StreamSettings) (culling : Culling κ) (coverage : Coverage) :
    Except SettingsError (Pipeline τ κ) := do
  s.validate
  return {
    culling
    holdings := .ofSettings s
    slots := .ofLimit s.maxConcurrentQuads
    bucket := .ofRate (TokenArithmetic.ofFloat s.maxRequestsPerSecond)
    quads := .ofCoverage { coverage with maxZoom := min coverage.maxZoom s.maxZoom }
    tiles := .ofLayers s.enabledLayers
    camera := none }

/-- The start of a call. -/
def turn (p : Pipeline τ κ) : Turn τ κ := ⟨p, .none, []⟩

/-- Moves the camera. Quads that left the view leave the queue, and the quads that the new view calls
for ask for slots. -/
def updateCamera (p : Pipeline τ κ) (camera : κ) (now : Instant) : Checked (Turn τ κ) := do
  let needed ← p.culling camera
  let (holdings, orders) ← p.holdings.view needed now p.slots.contains
  let dropped := p.slots.queue.filter fun quad => !holdings.isDesired quad
  let t : Turn τ κ :=
    { pipeline :=
        { p with holdings, slots := p.slots.retainQueued holdings.isDesired, camera := some camera }
      effects := { Effects.none with delta := orders.delta }
      journal := dropped.map .dropped }
  (orders.requests.foldl Turn.submit t).dispatch now

/-- Takes the outcome of a fetch. -/
def deliver (p : Pipeline τ κ) (tile : TileId) (layer : Layer) (outcome : Outcome) (now : Instant) :
    Checked (Turn τ κ) := do
  let (tiles, finished) := p.tiles.deliver tile layer outcome
  let t := { p with tiles }.turn
  let t ← match finished with
    | none => .ok t
    | some record => t.finishTile now record
  t.dispatch now

/-- Starts what the tokens allow by now. -/
def poll (p : Pipeline τ κ) (now : Instant) : Checked (Turn τ κ) := p.turn.dispatch now

/-- When a poll next has something to do, none while no quad waits for a token. -/
def nextDispatchAt (p : Pipeline τ κ) (now : Instant) : Checked (Option Instant) :=
  p.bucket.nextReleaseAt now

/-- Notes whether the network can be reached. Once it can be again, the last camera is looked at
anew. -/
def setOnline (p : Pipeline τ κ) (online : Bool) (now : Instant) : Checked (Turn τ κ) :=
  let (holdings, changed) := p.holdings.setOnline online
  let p := { p with holdings }
  if !changed || !online then .ok p.turn
  else
    match p.camera with
    | none => .ok p.turn
    | some camera => p.updateCamera camera now

/-- How many quads stand where. -/
def tally (p : Pipeline τ κ) : Tally :=
  { desired := p.holdings.desired.length
    cached := p.holdings.cache.size
    resident := p.holdings.residents.size
    inFlight := p.slots.inFlight
    queued := p.slots.queued
    rateLimited := p.bucket.size
    loadingTiles := p.tiles.loading }

end Pipeline

end TileStream
