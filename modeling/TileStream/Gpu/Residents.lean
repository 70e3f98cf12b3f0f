import TileStream.Cache.Recency

/-!
# The resident set

The quads that a renderer holds, at most a given number, with an index of when each was last seen.
-/

namespace TileStream

/-- The quads resident on the GPU. -/
structure Residents where
  limit : Nat
  recency : Recency
  deriving DecidableEq, Repr

namespace Residents

/-- No quads, with room for that many, at least one. -/
def ofLimit (limit : Nat) : Residents := ⟨max limit 1, .empty⟩

/-- Whether a quad is resident. -/
def contains (g : Residents) (quad : QuadId) : Bool := g.recency.contains quad

/-- The set with a quad, seen at `stamp`. -/
def insert (g : Residents) (quad : QuadId) (stamp : Nat) : Residents :=
  { g with recency := g.recency.touch quad stamp }

/-- The set after a quad was seen at `stamp`; other quads are left out. -/
def touch (g : Residents) (quad : QuadId) (stamp : Nat) : Residents :=
  if g.contains quad then g.insert quad stamp else g

/-- The set without a quad. -/
def erase (g : Residents) (quad : QuadId) : Residents :=
  { g with recency := g.recency.erase quad }

/-- The resident quad seen longest ago among those not pinned. -/
def oldestUnpinned (g : Residents) (pinned : QuadId → Bool) : Option QuadId :=
  g.recency.oldestUnpinned pinned

/-- The number of resident quads. -/
def size (g : Residents) : Nat := g.recency.size

/-- Whether there is no room for another quad. -/
def isFull (g : Residents) : Bool := g.limit ≤ g.size

/-- The resident quads. -/
def ids (g : Residents) : List QuadId := g.recency.ids

end Residents

end TileStream
