import TileStream.Record.Basic
import TileStream.Table

/-!
# Joining layers to tiles

A tile fans out into one fetch for each enabled layer. Its record is complete once every layer has an
outcome, good or bad. Outcomes that nobody waits for are dropped.
-/

namespace TileStream

/-- A fetch to be made: one layer of one tile. -/
structure Fetch where
  tile : TileId
  layer : Layer
  deriving DecidableEq, Repr, Hashable

/-- A tile whose layers are not all in: what is known and what is awaited. -/
structure TileJoin where
  record : TileRecord
  outstanding : LayerSet
  deriving DecidableEq, Repr

/-- The tiles being loaded. -/
structure TileJoins where
  layers : LayerSet
  pending : Table TileId TileJoin
  deriving DecidableEq, Repr

/-- What comes of the order to load a tile. -/
inductive TileStart where
  /-- The tile is complete once each of these is delivered. -/
  | fetch (requests : List Fetch)
  /-- There is nothing to fetch. -/
  | complete (record : TileRecord)
  | alreadyLoading
  deriving DecidableEq, Repr

namespace TileJoins

/-- No tile is being loaded. -/
def ofLayers (layers : LayerSet) : TileJoins := ⟨layers, .empty⟩

/-- Starts to load a tile. -/
def load (a : TileJoins) (tile : TileId) : TileJoins × TileStart :=
  if a.pending.contains tile then (a, .alreadyLoading)
  else if a.layers.isEmpty then (a, .complete (.empty tile))
  else
    ({ a with pending := a.pending.set tile ⟨.empty tile, a.layers⟩ },
      .fetch (a.layers.toList.map fun layer => ⟨tile, layer⟩))

/-- Records an outcome. Returns the tile's record when it was the last one awaited. -/
def deliver (a : TileJoins) (tile : TileId) (layer : Layer) (outcome : Outcome) :
    TileJoins × Option TileRecord :=
  match a.pending.get? tile with
  | none => (a, none)
  | some p =>
    if !p.outstanding.contains layer then (a, none)
    else
      let record := p.record.setLayer layer (.ofOutcome outcome)
      let outstanding := p.outstanding.erase layer
      if outstanding.isEmpty then ({ a with pending := a.pending.erase tile }, some record)
      else ({ a with pending := a.pending.set tile ⟨record, outstanding⟩ }, none)

/-- Whether a tile is being loaded. -/
def isLoading (a : TileJoins) (tile : TileId) : Bool := a.pending.contains tile

/-- The number of tiles being loaded. -/
def loading (a : TileJoins) : Nat := a.pending.size

end TileJoins

end TileStream
