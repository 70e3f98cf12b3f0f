import TileStream.Store.Basic
import TileStream.Table

/-!
# A store in memory

A table with a time stamp for each entry, some of whose operations may be refused. It hands out
everything it holds, whatever the age, in the order of keys.
-/

namespace TileStream

/-- Stored tiles, and the operations that are refused for now. -/
structure MemoryStore where
  tiles : Table TileKey StoredTile
  refused : List StoreOperation
  deriving DecidableEq, Repr

namespace MemoryStore

/-- Nothing is stored and nothing refused. -/
def empty : MemoryStore := ⟨.empty, []⟩

/-- The store with an entry put in. -/
def insert (s : MemoryStore) (t : StoredTile) : MemoryStore :=
  { s with tiles := s.tiles.set t.key t }

/-- Everything that is stored, in the order of keys. -/
def all (s : MemoryStore) : List StoredTile :=
  s.tiles.values.mergeSort fun a b => TileKey.atMost a.key b.key

/-- A result of an operation, unless the operation is refused. -/
def unlessRefused {α : Type} (s : MemoryStore) (operation : StoreOperation) (a : α) :
    Except StoreFailure α :=
  if s.refused.contains operation then .error (.refused operation) else .ok a

instance : TileStore MemoryStore where
  read s tile layer := s.unlessRefused .read (s.tiles.get? (tile, layer))
  write s tile layer bytes now :=
    match s.unlessRefused .write () with
    | .ok () => (s.insert ⟨tile, layer, bytes, now.epochMillis⟩, .ok ())
    | .error e => (s, .error e)
  readAll s _ _ := s.unlessRefused .readAll s.all

end MemoryStore

end TileStream
