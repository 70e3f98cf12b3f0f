import TileStream.Geo.Tile
import TileStream.Layer.Set
import TileStream.Numeric.Total
import TileStream.Record.Outcome

/-!
# Records of tiles and quads

A tile record holds the status of each layer that was resolved. A quad record holds the records of
its tiles in child order; it is the unit of caching. Neither is drawable without a single successful
layer.
-/

namespace TileStream

/-- What is known of one tile. -/
structure TileRecord where
  id : TileId
  layers : PerLayer LayerState
  deriving DecidableEq, Repr

namespace TileRecord

/-- The record of a tile of which nothing is known. -/
def empty (id : TileId) : TileRecord := ⟨id, .empty⟩

/-- The record with the status of one layer set. -/
def setLayer (r : TileRecord) (l : Layer) (s : LayerState) : TileRecord :=
  { r with layers := r.layers.set l s }

/-- The bytes of a layer, where there are any. -/
def payload? (r : TileRecord) (l : Layer) : Option Bytes :=
  (r.layers.get? l).bind LayerState.bytes?

/-- The layers that have a status. -/
def resolved (r : TileRecord) : LayerSet := .ofList (r.layers.toList.map (·.1))

/-- The layers that have bytes. -/
def available (r : TileRecord) : LayerSet :=
  .ofList ((r.layers.toList.filter fun (_, s) => s.bytes?.isSome).map (·.1))

/-- Whether some layer has bytes. -/
def isDrawable (r : TileRecord) : Bool := !r.available.isEmpty

/-- Whether some layer was lost to the network. -/
def hasNetworkFailure (r : TileRecord) : Bool :=
  r.layers.toList.any fun (_, s) => s = .absent .networkError

/-- The number of bytes over all layers. -/
def size (r : TileRecord) : Nat := Numeric.total (r.layers.toList.map fun (_, s) => s.size)

end TileRecord

/-- What is known of the tiles of one quad. -/
structure QuadRecord where
  id : QuadId
  tiles : List TileRecord
  deriving DecidableEq, Repr

namespace QuadRecord

/-- The record of a quad, its tiles put into child order. Tiles of one place keep their order. -/
def ofTiles (id : QuadId) (tiles : List TileRecord) : QuadRecord :=
  ⟨id, tiles.mergeSort fun a b => a.id.childIndex ≤ b.id.childIndex⟩

/-- The first record of a tile. -/
def tile? (r : QuadRecord) (id : TileId) : Option TileRecord := r.tiles.find? (·.id = id)

/-- Whether some tile is drawable. -/
def isDrawable (r : QuadRecord) : Bool := r.tiles.any TileRecord.isDrawable

/-- Whether some tile lost a layer to the network. -/
def hasNetworkFailure (r : QuadRecord) : Bool := r.tiles.any TileRecord.hasNetworkFailure

/-- The number of bytes over all tiles. -/
def size (r : QuadRecord) : Nat := Numeric.total (r.tiles.map TileRecord.size)

end QuadRecord

end TileStream
