import TileStream.Geo.Mercator

/-!
# Coverage

The shape of the served quadtree: how deep it goes and, optionally, the region that has data.
Tiles outside the shape do not exist; they are neither requested nor waited for.
-/

namespace TileStream

/-- The depth of the tree and the region it covers, the whole world by default. -/
structure Coverage where
  maxZoom : UInt8
  extent : Option Box
  deriving BEq, Repr

namespace Coverage

/-- A tree of the whole world, no deeper than the levels supported. -/
def ofDepth (maxZoom : UInt8) : Coverage := ⟨min maxZoom maxSupportedZoom, none⟩

/-- Whether a tile exists. The top level exists whatever the region. -/
def covers (c : Coverage) (t : TileId) : Bool :=
  if !t.isValid || c.maxZoom < t.zoom then false
  else
    match c.extent with
    | some box => t.zoom = 0 || t.bounds.intersects box
    | none => true

/-- The children of a quad that exist. -/
def children (c : Coverage) (quad : QuadId) : Checked (List TileId) :=
  if c.maxZoom ≤ quad.zoom then .ok []
  else do return (← quad.children).filter c.covers

end Coverage

end TileStream
