import TileStream.Cache.Recency
import TileStream.Record.Basic
import TileStream.Time

/-!
# The cache of finished quads

The cache holds a bounded number of quad records. To make room it gives up the quad seen longest
ago, but never one that is pinned, which means in view; when only pinned quads are left the newcomer
is refused.
-/

namespace TileStream

/-- A record and when it came. -/
structure CacheEntry where
  record : QuadRecord
  receivedAt : Instant
  deriving DecidableEq, Repr

/-- The refusal of a newcomer by a cache whose quads are all pinned. -/
structure CacheFull where
  capacity : Nat
  deriving DecidableEq, Repr

/-- The refusal in words. -/
def CacheFull.message (e : CacheFull) : String :=
  s!"RAM cache is full and all {e.capacity} cached quads are in view"

/-- Records by quad, with an index of when each was last seen. -/
structure QuadCache where
  capacity : Nat
  entries : Table QuadId CacheEntry
  recency : Recency
  deriving DecidableEq, Repr

namespace QuadCache

/-- An empty cache for that many quads, at least one. -/
def ofCapacity (capacity : Nat) : QuadCache := ⟨max capacity 1, .empty, .empty⟩

/-- The number of quads cached. -/
def size (c : QuadCache) : Nat := c.entries.size

/-- Whether a quad is cached. -/
def contains (c : QuadCache) (quad : QuadId) : Bool := c.entries.contains quad

/-- Whether there is no room for another quad. -/
def isFull (c : QuadCache) : Bool := c.capacity ≤ c.size

/-- Whether there is no room and every quad is pinned. -/
def isPinnedFull (c : QuadCache) (pinned : QuadId → Bool) : Bool :=
  c.isFull && (c.recency.oldestUnpinned pinned).isNone

/-- The record of a cached quad. -/
def get? (c : QuadCache) (quad : QuadId) : Option QuadRecord := (c.entries.get? quad).map (·.record)

/-- When the record of a cached quad came. -/
def receivedAt? (c : QuadCache) (quad : QuadId) : Option Instant :=
  (c.entries.get? quad).map (·.receivedAt)

/-- The stamp at which a cached quad was last seen. -/
def lastSeen? (c : QuadCache) (quad : QuadId) : Option Nat := c.recency.stamp? quad

/-- The cache without a quad. -/
def erase (c : QuadCache) (quad : QuadId) : QuadCache :=
  { c with entries := c.entries.erase quad, recency := c.recency.erase quad }

/-- The cache after a quad was seen at `stamp`; quads not cached are left out. -/
def touch (c : QuadCache) (quad : QuadId) (stamp : Nat) : QuadCache :=
  if c.contains quad then { c with recency := c.recency.touch quad stamp } else c

/-- The cache with a record stored, whatever the room. -/
def store (c : QuadCache) (record : QuadRecord) (stamp : Nat) (now : Instant) : QuadCache :=
  { c with
    entries := c.entries.set record.id ⟨record, now⟩
    recency := c.recency.touch record.id stamp }

/-- Stores a record. A new quad in a full cache takes the place of the unpinned quad seen longest
ago, which is returned, and is refused when there is none. -/
def insert (c : QuadCache) (record : QuadRecord) (stamp : Nat) (now : Instant)
    (pinned : QuadId → Bool) : Except CacheFull (QuadCache × Option QuadId) :=
  if !c.contains record.id && c.isFull then
    match c.recency.oldestUnpinned fun quad => quad = record.id || pinned quad with
    | none => .error ⟨c.capacity⟩
    | some victim => .ok ((c.erase victim).store record stamp now, some victim)
  else .ok (c.store record stamp now, none)

/-- The quads cached. -/
def ids (c : QuadCache) : List QuadId := c.recency.ids

end QuadCache

end TileStream
