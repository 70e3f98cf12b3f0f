import TileStream.Gpu.Delta
import TileStream.Table

/-!
# What a renderer holds

A renderer that starts with nothing and applies every delta in turn, removals first, holds exactly
the records that the deltas describe. It counts the uploads.
-/

namespace TileStream

/-- The records a renderer holds and how many it was sent. -/
structure Renderer where
  quads : Table QuadId QuadRecord
  uploads : Nat
  deriving DecidableEq, Repr

namespace Renderer

/-- Nothing is held. -/
def empty : Renderer := ⟨.empty, 0⟩

/-- What is held after a delta. -/
def apply (m : Renderer) (d : ResidencyDelta) : Renderer :=
  let kept := d.removed.foldl Table.erase m.quads
  { quads := d.added.foldl (fun t r => t.set r.id r) kept
    uploads := m.uploads + d.added.length }

/-- The number of quads held. -/
def size (m : Renderer) : Nat := m.quads.size

/-- The number of tiles held that have a usable layer. -/
def drawableTiles (m : Renderer) : Nat :=
  Numeric.total (m.quads.values.map fun r => r.tiles.countP TileRecord.isDrawable)

/-- The number of bytes held. -/
def residentBytes (m : Renderer) : Nat := Numeric.total (m.quads.values.map QuadRecord.size)

end Renderer

end TileStream
