import TileStream.Fault

/-!
# Tiles and quads

A tile is a node of the web-mercator quadtree: a zoom level, a column and a row counted from the
north-west. A quad is a group of four siblings and is named by their parent. Ids are fixed-width
words: halving and doubling shift them, and a zoom or a coordinate that leaves its word is a fault.

* `TileId.parent?` and `TileId.children` go up and down one level, `TileId.ancestors` all the way up.
* `TileId.before` is the order of ids: coarse levels first, then by column, then by row.
-/

namespace TileStream

/-- A node of the quadtree. -/
structure TileId where
  zoom : UInt8
  x : UInt32
  y : UInt32
  deriving DecidableEq, Repr, Hashable, Inhabited

/-- A group of four siblings, named by their parent. -/
abbrev QuadId := TileId

/-- The deepest level whose grid still fits a 32-bit coordinate. -/
def maxSupportedZoom : UInt8 := 30

namespace TileId

/-- The tile that covers the whole world. -/
def root : TileId := ⟨0, 0, 0⟩

/-- The number of columns of a level, which is also the number of rows. -/
def gridSize (zoom : UInt8) : UInt32 := 1 <<< (min zoom maxSupportedZoom).toUInt32

/-- Whether the id names a node of a supported level. -/
def isValid (t : TileId) : Bool :=
  t.zoom ≤ maxSupportedZoom && t.x < gridSize t.zoom && t.y < gridSize t.zoom

/-- The tile one level up; none for the root's level. -/
def parent? (t : TileId) : Option TileId :=
  if t.zoom = 0 then none else some ⟨t.zoom - 1, t.x >>> 1, t.y >>> 1⟩

/-- The level after `zoom`, a fault after the last one. -/
def nextZoom (zoom : UInt8) : Checked UInt8 :=
  if zoom = 255 then .error .overflow else .ok (zoom + 1)

/-- The coordinate after `v`, a fault after the last one. -/
def nextCoordinate (v : UInt32) : Checked UInt32 :=
  if v = 0xFFFFFFFF then .error .overflow else .ok (v + 1)

/-- The four tiles one level down: north-west, north-east, south-west, south-east. -/
def children (t : TileId) : Checked (List TileId) := do
  let zoom ← nextZoom t.zoom
  let west := t.x <<< 1
  let north := t.y <<< 1
  let east ← nextCoordinate west
  let south ← nextCoordinate north
  return [⟨zoom, west, north⟩, ⟨zoom, east, north⟩, ⟨zoom, west, south⟩, ⟨zoom, east, south⟩]

/-- The place of the tile among the children of its parent. -/
def childIndex (t : TileId) : Nat := ((t.y &&& 1) * 2 + (t.x &&& 1)).toNat

/-- The parents of a tile's parents over `n` levels, the nearest first. -/
def ancestorsOver : Nat → TileId → List TileId
  | 0, _ => []
  | n + 1, t =>
    match t.parent? with
    | none => []
    | some p => p :: ancestorsOver n p

/-- The proper ancestors of a tile, its parent first and the top level last. -/
def ancestors (t : TileId) : List TileId := ancestorsOver t.zoom.toNat t

/-- The order of ids: by zoom, then by column, then by row. -/
def before (a b : TileId) : Bool :=
  a.zoom < b.zoom || (a.zoom = b.zoom && (a.x < b.x || (a.x = b.x && a.y < b.y)))

/-- Whether `a` comes no later than `b`. -/
def atMost (a b : TileId) : Bool := !b.before a

/-- The ids in order. -/
def sort (ts : List TileId) : List TileId := ts.mergeSort atMost

/-- A list without the members that equal the one before them. -/
def mergeRuns : List TileId → List TileId
  | [] => []
  | [t] => [t]
  | a :: b :: ts => if a = b then mergeRuns (b :: ts) else a :: mergeRuns (b :: ts)

/-- The members of a list, each once and in order. -/
def ordered (ts : List TileId) : List TileId := mergeRuns (sort ts)

/-- The id as zoom, column and row. -/
def display (t : TileId) : String := s!"{t.zoom}/{t.x}/{t.y}"

end TileId

end TileStream
