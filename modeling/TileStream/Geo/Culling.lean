import Std.Data.HashSet
import TileStream.Geo.Camera
import TileStream.Geo.Coverage

/-!
# Culling

Culling decides which tiles a camera needs. Here it is any function from cameras to lists of tiles,
read as sets: order and repetition carry no meaning. The draw list is the finest needed tiles.

Refinement is the culling used in flight. Starting from the root it goes down wherever a test says
that a tile is too coarse, and needs every existing child of a refined tile. The test of
`ScreenSpaceError` compares the size of a texel on screen with a threshold.
-/

namespace TileStream

/-- A rule for the tiles that a camera needs. -/
abbrev Culling (κ : Type) := κ → Checked (List TileId)

namespace Culling

/-- The needed tiles none of whose children is needed, in order. -/
def leaves (needed : List TileId) : Checked (List TileId) := do
  let members := Std.HashSet.ofList needed
  let finest ← needed.filterM fun t => return !(← t.children).any members.contains
  return TileId.ordered finest

/-- What a renderer draws once everything is loaded. -/
def drawList {κ : Type} (culling : Culling κ) (camera : κ) : Checked (List TileId) := do
  leaves (← culling camera)

/-- Whether a camera needs a tile. -/
def needs {κ : Type} (culling : Culling κ) (camera : κ) (t : TileId) : Checked Bool :=
  return (← culling camera).contains t

end Culling

namespace Coverage

/-- The existing tiles reached from `t` within `depth` levels by refining where `refine` says so. -/
def reachedFrom (c : Coverage) (refine : TileId → Checked Bool) :
    Nat → TileId → Checked (List TileId)
  | 0, _ => .ok []
  | depth + 1, t => do
    if ← refine t then
      let kids ← c.children t
      let deeper ← kids.mapM (c.reachedFrom refine depth)
      return kids ++ deeper.flatten
    else return []

/-- The existing tiles reached from the root. No tile lies deeper than the tree. -/
def reached (c : Coverage) (refine : TileId → Checked Bool) : Checked (List TileId) :=
  c.reachedFrom refine c.maxZoom.toNat TileId.root

/-- Whether a test holds of every member of a list, asked in order up to the first refusal. -/
def allRefined (refine : TileId → Checked Bool) : List TileId → Checked Bool
  | [] => .ok true
  | t :: ts => do if ← refine t then allRefined refine ts else return false

/-- Whether a tile is reached, told from its ancestors alone. -/
def reaches (c : Coverage) (refine : TileId → Checked Bool) (t : TileId) : Checked Bool :=
  if t.zoom = 0 || !c.covers t then .ok false else allRefined refine t.ancestors

end Coverage

/-- Refines a tile while its texels would appear larger on screen than the threshold. -/
structure ScreenSpaceError where
  coverage : Coverage
  resolution : Float
  threshold : Float

namespace ScreenSpaceError

/-- Tiles of 256 texels, refined down to one pixel a texel. -/
def ofCoverage (coverage : Coverage) : ScreenSpaceError := ⟨coverage, 256.0, 1.0⟩

/-- Whether a tile is too coarse for a camera. The root always is, the deepest level never. -/
def refines (e : ScreenSpaceError) (camera : Camera) (t : TileId) : Checked Bool := do
  if t = TileId.root then return true
  if e.coverage.maxZoom ≤ t.zoom then return false
  let bounds := t.bounds
  let ground ← bounds.groundDistance camera.position
  let altitude := camera.altitude
  let distance := (ground * ground + altitude * altitude).sqrt
  let texel := bounds.width / e.resolution
  return texel * camera.pixelsPerMeter distance > e.threshold

/-- The tiles that a camera needs. -/
def culling (e : ScreenSpaceError) : Culling Camera :=
  fun camera => e.coverage.reached (e.refines camera)

/-- Whether a camera needs a tile, told from the tile's ancestors alone. -/
def needs (e : ScreenSpaceError) (camera : Camera) (t : TileId) : Checked Bool :=
  e.coverage.reaches (e.refines camera) t

end ScreenSpaceError

end TileStream
