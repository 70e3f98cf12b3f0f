import TileStream.Gpu.Delta
import TileStream.Join.Tiles

/-!
# Effects and notices

The effects of a call are what the owner of a pipeline has to act on. The journal of a call tells,
in order, what befell the quads in it.
-/

namespace TileStream

/-- What the owner of a pipeline has to act on after a call. -/
structure Effects where
  /-- Fetches to start; each is to be answered once. -/
  fetches : List Fetch
  delta : ResidencyDelta
  /-- The quads that were finished. -/
  completed : List QuadId
  /-- The finished quads that the cache refused. -/
  refused : List QuadId
  deriving DecidableEq, Repr

namespace Effects

/-- Nothing to act on. -/
def none : Effects := ⟨[], .empty, [], []⟩

/-- Whether there is nothing to act on. -/
def isEmpty (e : Effects) : Bool :=
  e.fetches.isEmpty && e.delta.isEmpty && e.completed.isEmpty && e.refused.isEmpty

end Effects

/-- What befell a quad during a call. -/
inductive Notice where
  /-- It was admitted or queued, not being known before. -/
  | accepted (quad : QuadId)
  /-- It left the queue because it left the view. -/
  | dropped (quad : QuadId)
  /-- It left the token bucket. -/
  | started (quad : QuadId)
  /-- It left the token bucket while it was being loaded already. -/
  | startedAgain (quad : QuadId)
  /-- One of its tiles was called for while that was being loaded already. -/
  | calledAgain (tile : TileId)
  /-- Its record was finished and offered to the cache. -/
  | finished (record : QuadRecord)
  deriving DecidableEq, Repr

end TileStream
