import TileStream.Cache.Quads
import TileStream.Gpu.Delta
import TileStream.Gpu.Residents
import TileStream.Settings.Stream

/-!
# Holdings

The quads that the current view desires, the cache of finished quads, and the quads resident on the
GPU. A new view yields orders: quads to load and a delta for the renderer. Each view counts as an
epoch, and a quad is stamped, in the cache and on the GPU, by the views that desire it and when it
comes.

* `Holdings.view` takes a new set of needed tiles. The desired quads are the parents of its members.
* `Holdings.receive` takes a finished quad, or refuses it when the cache is full of desired quads.
* `Holdings.upload` makes a cached quad resident; when the GPU is full the resident quad seen longest
  ago and not desired makes room, and when there is none the upload is put off.
-/

namespace TileStream

/-- What is desired, cached and resident. -/
structure Holdings where
  cache : QuadCache
  residents : Residents
  desired : List QuadId
  epoch : Nat
  online : Bool
  failedQuadRetry : Duration
  deriving DecidableEq, Repr

/-- What a new view calls for: quads to load, coarse ones first, and a delta for the renderer. -/
structure Orders where
  requests : List QuadId
  delta : ResidencyDelta
  deriving DecidableEq, Repr

namespace Holdings

/-- Nothing is desired, cached or resident. -/
def ofSettings (s : StreamSettings) : Holdings :=
  { cache := .ofCapacity s.ramQuadLimit
    residents := .ofLimit s.gpuQuadLimit
    desired := []
    epoch := 0
    online := true
    failedQuadRetry := s.failedQuadRetry }

/-- Whether a quad is desired. -/
def isDesired (h : Holdings) (quad : QuadId) : Bool := h.desired.contains quad

/-- The parents of the needed tiles, each once. -/
def parents (needed : List TileId) : List QuadId := (needed.filterMap TileId.parent?).eraseDups

/-- The holdings at the start of a new epoch that desires other quads. -/
def desire (h : Holdings) (desired : List QuadId) (epoch : Nat) : Holdings :=
  { h with
    desired
    epoch
    cache := desired.foldl (fun c quad => c.touch quad epoch) h.cache
    residents := desired.foldl (fun g quad => g.touch quad epoch) h.residents }

/-- Makes a cached quad resident. Returns whether it is. -/
def upload (h : Holdings) (delta : ResidencyDelta) (quad : QuadId) :
    Holdings × ResidencyDelta × Bool :=
  match h.cache.get? quad with
  | none => (h, delta, false)
  | some record =>
    if h.residents.contains quad then (h, delta, true)
    else if h.residents.isFull then
      match h.residents.oldestUnpinned h.isDesired with
      | none => (h, delta, false)
      | some victim =>
        ({ h with residents := (h.residents.erase victim).insert quad h.epoch },
          (delta.remove victim).add record, true)
    else ({ h with residents := h.residents.insert quad h.epoch }, delta.add record, true)

/-- Makes quads resident in turn, up to the first that is put off. -/
def uploadAll (h : Holdings) (delta : ResidencyDelta) : List QuadId → Holdings × ResidencyDelta
  | [] => (h, delta)
  | quad :: rest =>
    match h.upload delta quad with
    | (h, delta, true) => h.uploadAll delta rest
    | (h, delta, false) => (h, delta)

/-- Makes the desired quads resident that are cached and are not resident yet. -/
def sync (h : Holdings) : Holdings × ResidencyDelta :=
  h.uploadAll .empty <| TileId.sort <|
    h.desired.filter fun quad => h.cache.contains quad && !h.residents.contains quad

/-- Whether a cached quad lost a layer to the network long enough ago to be tried again. -/
def isStale (h : Holdings) (quad : QuadId) (record : QuadRecord) (now : Instant) : Bool :=
  record.hasNetworkFailure &&
    match h.cache.receivedAt? quad with
    | none => false
    | some at_ => h.failedQuadRetry.nanos ≤ (now.since at_).nanos

/-- Whether a desired quad is to be loaded. Nothing new is loaded into a cache that is full of
desired quads. -/
def isWanted (h : Holdings) (pinnedFull : Bool) (now : Instant) (quad : QuadId) : Bool :=
  match h.cache.get? quad with
  | none => !pinnedFull
  | some record => h.isStale quad record now

/-- The desired quads to load, in order; none when offline. -/
def requests (h : Holdings) (now : Instant) (inFlight : QuadId → Bool) : List QuadId :=
  if !h.online then []
  else
    let pinnedFull := h.cache.isPinnedFull h.isDesired
    TileId.sort <| h.desired.filter fun quad => !inFlight quad && h.isWanted pinnedFull now quad

/-- Takes a new set of needed tiles. Quads in flight are not requested again. A fault when the
epochs run out. -/
def view (h : Holdings) (needed : List TileId) (now : Instant) (inFlight : QuadId → Bool) :
    Checked (Holdings × Orders) := do
  let epoch ← Checked.word64 (h.epoch + 1)
  let (h, delta) := (h.desire (parents needed) epoch).sync
  return (h, ⟨h.requests now inFlight, delta⟩)

/-- The holdings without a quad on the GPU, told in a delta when it was there. -/
def withdraw (h : Holdings) (delta : ResidencyDelta) (quad : QuadId) : Holdings × ResidencyDelta :=
  if h.residents.contains quad then
    ({ h with residents := h.residents.erase quad }, delta.remove quad)
  else (h, delta)

/-- Caches a finished quad and makes it resident if it is desired. A quad evicted to make room
leaves the GPU too, and a resident quad that was replaced is sent again. -/
def receive (h : Holdings) (record : QuadRecord) (now : Instant) :
    Except CacheFull (Holdings × ResidencyDelta) := do
  let replaced := h.cache.contains record.id
  let (cache, evicted) ← h.cache.insert record h.epoch now h.isDesired
  let h := { h with cache }
  let (h, delta) := match evicted with
    | none => (h, ResidencyDelta.empty)
    | some quad => h.withdraw .empty quad
  if replaced && h.residents.contains record.id then
    return (h, (delta.remove record.id).add record)
  else if h.isDesired record.id then
    let (h, delta, _) := h.upload delta record.id
    return (h, delta)
  else return (h, delta)

/-- Notes whether the network can be reached. Returns whether that changed. -/
def setOnline (h : Holdings) (online : Bool) : Holdings × Bool :=
  ({ h with online }, h.online != online)

end Holdings

end TileStream
