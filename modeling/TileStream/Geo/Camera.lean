import TileStream.Geo.Box

/-!
# Cameras

A camera looks straight down from a place through a viewport. What culling needs of it is its
altitude, at least one meter, and how many pixels a meter covers at a distance.
-/

namespace TileStream

open Numeric

/-- A place to look from, the viewport in pixels and the vertical field of view in degrees. -/
structure Camera where
  position : Coordinate
  viewportWidth : UInt32
  viewportHeight : UInt32
  fieldOfView : Float
  deriving BEq, Repr

namespace Camera

/-- A camera over a place, with the usual viewport. -/
def above (latitude longitude altitude : Float) : Camera :=
  ⟨⟨latitude, longitude, some altitude⟩, 1920, 1080, 60.0⟩

/-- The altitude in meters, at least one. -/
def altitude (c : Camera) : Float := larger (c.position.altitude.getD 0.0) 1.0

/-- The pixels that one meter covers at a distance. -/
def pixelsPerMeter (c : Camera) (distance : Float) : Float :=
  let half := toRadians (between 1.0 179.0 c.fieldOfView * 0.5)
  c.viewportHeight.toFloat / (2.0 * half.tan * larger distance 1.0)

end Camera

end TileStream
