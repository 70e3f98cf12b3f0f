import TileStream.Geo.Coverage
import TileStream.Record.Basic
import TileStream.Table

/-!
# Joining tiles to quads

A quad expands into those of its children that exist. Its record is complete once as many of its
tiles are in, each counted once. Tiles of quads that are not being loaded are dropped.
-/

namespace TileStream

/-- A quad whose tiles are not all in: how many it takes and those that came. -/
structure QuadJoin where
  expected : Nat
  tiles : List TileRecord
  deriving DecidableEq, Repr

/-- The quads being loaded. -/
structure QuadJoins where
  coverage : Coverage
  pending : Table QuadId QuadJoin
  deriving Repr

/-- What comes of the order to load a quad. -/
inductive QuadStart where
  /-- The quad is complete once each of these tiles is delivered. -/
  | started (tiles : List TileId)
  /-- No child exists. -/
  | complete (record : QuadRecord)
  | alreadyLoading
  deriving DecidableEq, Repr

namespace QuadJoins

/-- No quad is being loaded. -/
def ofCoverage (coverage : Coverage) : QuadJoins := ⟨coverage, .empty⟩

/-- Starts to load a quad. -/
def load (a : QuadJoins) (quad : QuadId) : Checked (QuadJoins × QuadStart) :=
  if a.pending.contains quad then .ok (a, .alreadyLoading)
  else do
    let children ← a.coverage.children quad
    if children.isEmpty then return (a, .complete (.ofTiles quad []))
    else
      return ({ a with pending := a.pending.set quad ⟨children.length, []⟩ }, .started children)

/-- Takes in the record of a tile. Returns the quad's record when it was the last one awaited. -/
def deliver (a : QuadJoins) (tile : TileRecord) : QuadJoins × Option QuadRecord :=
  match tile.id.parent? with
  | none => (a, none)
  | some quad =>
    match a.pending.get? quad with
    | none => (a, none)
    | some p =>
      if p.tiles.any (·.id = tile.id) then (a, none)
      else
        let tiles := p.tiles ++ [tile]
        if tiles.length < p.expected then
          ({ a with pending := a.pending.set quad { p with tiles } }, none)
        else ({ a with pending := a.pending.erase quad }, some (.ofTiles quad tiles))

/-- Whether a quad is being loaded. -/
def isLoading (a : QuadJoins) (quad : QuadId) : Bool := a.pending.contains quad

/-- The number of quads being loaded. -/
def loading (a : QuadJoins) : Nat := a.pending.size

end QuadJoins

end TileStream
