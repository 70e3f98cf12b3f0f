import TileStream.Numeric.Bounds

/-!
# Coordinates and boxes

A coordinate is a latitude and a longitude in degrees with an optional altitude. A box is a range of
each. Distances on the ground use a flat approximation that scales longitudes by the cosine of the
latitude.
-/

namespace TileStream

open Numeric

/-- A place on the earth, in degrees and meters. -/
structure Coordinate where
  latitude : Float
  longitude : Float
  altitude : Option Float
  deriving BEq, Repr

/-- A range of latitudes and a range of longitudes. -/
structure Box where
  north : Float
  south : Float
  east : Float
  west : Float
  deriving BEq, Repr

/-- The radius of the earth in meters. -/
def earthRadius : Float := 6378137.0

/-- The length of one degree on the ground in meters. -/
def metersPerDegree : Float := earthRadius * pi / 180.0

namespace Box

/-- Whether the place lies in the box, its edges included. -/
def contains (b : Box) (c : Coordinate) : Bool :=
  c.latitude ≤ b.north && c.latitude ≥ b.south && c.longitude ≤ b.east && c.longitude ≥ b.west

/-- Whether two boxes share more than an edge. -/
def intersects (a b : Box) : Bool :=
  a.south < b.north && a.north > b.south && a.west < b.east && a.east > b.west

/-- The middle of the box. -/
def center (b : Box) : Coordinate :=
  ⟨(b.north + b.south) * 0.5, (b.east + b.west) * 0.5, none⟩

/-- The east-west extent in meters, at the latitude of the middle. -/
def width (b : Box) : Float :=
  (b.east - b.west) * (toRadians b.center.latitude).cos * metersPerDegree

/-- The distance in meters from a place to the nearest point of the box. -/
def groundDistance (b : Box) (c : Coordinate) : Checked Float := do
  let latitude ← clamp b.south b.north c.latitude
  let longitude ← clamp b.west b.east c.longitude
  let mean := toRadians ((latitude + c.latitude) * 0.5)
  let dx := (c.longitude - longitude) * mean.cos * metersPerDegree
  let dy := (c.latitude - latitude) * metersPerDegree
  return (dx * dx + dy * dy).sqrt

end Box

end TileStream
