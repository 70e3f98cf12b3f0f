import TileStream.Geo.Box
import TileStream.Geo.Tile

/-!
# The web-mercator projection

Columns divide the longitudes evenly; rows divide the projected latitudes evenly. `TileId.bounds`
is the box of a tile and `TileId.containing` the tile of a level that a place falls into.
-/

namespace TileStream

open Numeric

/-- The latitude of the northern edge of row `y` among `n` rows. -/
def rowLatitude (y n : Float) : Float :=
  toDegrees (pi * (1.0 - 2.0 * y / n)).sinh.atan

namespace TileId

/-- The box that a tile covers. -/
def bounds (t : TileId) : Box :=
  let n := (gridSize t.zoom).toFloat
  let x := t.x.toFloat
  let y := t.y.toFloat
  { north := rowLatitude y n
    south := rowLatitude (y + 1.0) n
    east := (x + 1.0) / n * 360.0 - 180.0
    west := x / n * 360.0 - 180.0 }

/-- The latitude beyond which the projection is cut off. -/
def edgeLatitude : Float := 85.05112878

/-- The tile of a level that a place falls into; places off the map fall into an edge tile. -/
def containing (c : Coordinate) (zoom : UInt8) : TileId :=
  let zoom := min zoom maxSupportedZoom
  let n := (gridSize zoom).toFloat
  let latitude := toRadians (between (-edgeLatitude) edgeLatitude c.latitude)
  let x := ((c.longitude + 180.0) / 360.0 * n).floor
  let y := ((1.0 - (latitude.tan + 1.0 / latitude.cos).log / pi) * 0.5 * n).floor
  let last := n - 1.0
  ⟨zoom, (between 0.0 last x).toUInt32, (between 0.0 last y).toUInt32⟩

end TileId

end TileStream
