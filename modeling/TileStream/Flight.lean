import TileStream.Geo.Camera
import TileStream.Time

/-!
# Flights

A flight goes round its waypoints, one leg after the other, each leg in the same time. Between two
waypoints the camera starts and ends slowly. It stands in for someone who moves a camera.
-/

namespace TileStream

open Numeric

/-- A place that a flight passes. -/
structure Waypoint where
  name : String
  latitude : Float
  longitude : Float
  altitude : Float

/-- The waypoints of a round trip and the time for each leg. -/
structure Flight where
  waypoints : List Waypoint
  leg : Duration

namespace Flight

/-- A flight whose legs take at least a millisecond. -/
def ofWaypoints (waypoints : List Waypoint) (leg : Duration) : Flight :=
  ⟨waypoints, leg.longer (.ofMillis 1)⟩

/-- A round trip through the Alps. -/
def alpine : Flight :=
  ofWaypoints
    [⟨"Vienna", 48.2082, 16.3738, 3000.0⟩,
     ⟨"Hochschwab", 47.6180, 15.1430, 6000.0⟩,
     ⟨"Grossglockner", 47.0742, 12.6947, 4500.0⟩,
     ⟨"Innsbruck", 47.2692, 11.4041, 2500.0⟩,
     ⟨"Salzburg", 47.8095, 13.0550, 12000.0⟩]
    (.ofSeconds 40)

/-- The time of one round. -/
def round (f : Flight) : Checked Duration := f.leg.times f.waypoints.length

/-- How far along a leg the camera is after a part of the leg's time. -/
def smooth (part : Float) : Float :=
  let t := between 0.0 1.0 part
  t * t * (3.0 - 2.0 * t)

/-- The camera over the place that lies the part `s` of the way between two waypoints. -/
def cameraBetween (a b : Waypoint) (s : Float) : Camera :=
  let mix (x y : Float) : Float := x * (1.0 - s) + y * s
  .above (mix a.latitude b.latitude) (mix a.longitude b.longitude) (mix a.altitude b.altitude)

/-- The camera after a time of flight, round after round. Without waypoints it stays over the middle
of the map. -/
def cameraAt (f : Flight) (elapsed : Duration) : Checked Camera :=
  match f.waypoints with
  | [] => .ok (.above 0.0 0.0 20000000.0)
  | [w] => .ok (.above w.latitude w.longitude w.altitude)
  | first :: second :: rest => do
    let stops := first :: second :: rest
    let round ← f.round
    let progress := remainder elapsed.secondsFloat round.secondsFloat / f.leg.secondsFloat
    let leg := progress.floor.toUInt64.toNat % stops.length
    let start := stops[leg]?.getD first
    let goal := stops[(leg + 1) % stops.length]?.getD first
    return cameraBetween start goal (smooth (fraction progress))

end Flight

end TileStream
