import TileStream.Layer.Basic
import TileStream.Record.Outcome
import TileStream.Geo.Tile
import TileStream.Time

/-!
# Stores of tiles

A store keeps the bytes of layers of tiles together with the time they were stored. Losing it costs
fetches and nothing else, so its failures are texts for a log. Stored data is fresh up to an age.
-/

namespace TileStream

/-- What the system answers when it refuses to work on a path. -/
inductive SystemError where
  | notFound
  | fileExists
  | notDirectory
  | isDirectory
  /-- A name of more than 255 bytes, or a path of more than 4095. -/
  | nameTooLong
  /-- A path with a NUL character, which ends a path for the system. -/
  | nulCharacter
  deriving DecidableEq, Repr

/-- The refusal as the system words it. -/
def SystemError.message : SystemError → String
  | notFound => "No such file or directory (os error 2)"
  | fileExists => "File exists (os error 17)"
  | notDirectory => "Not a directory (os error 20)"
  | isDirectory => "Is a directory (os error 21)"
  | nameTooLong => "File name too long (os error 36)"
  | nulCharacter => "file name contained an unexpected NUL byte"

/-- The operations of a store. -/
inductive StoreOperation where
  | read
  | write
  | readAll
  deriving DecidableEq, Repr

/-- Why a store could not do what it was asked. -/
inductive StoreFailure where
  /-- The system refused to work on a path. -/
  | system (cause : SystemError)
  /-- The directory of the store could not be made. -/
  | cannotCreate (path : String) (cause : SystemError)
  /-- The store does not carry out the operation for now. -/
  | refused (operation : StoreOperation)
  deriving DecidableEq, Repr

/-- The name of an operation in messages. -/
def StoreOperation.name : StoreOperation → String
  | read => "get"
  | write => "put"
  | readAll => "load_all"

/-- The failure in words. -/
def StoreFailure.message : StoreFailure → String
  | system cause => cause.message
  | cannotCreate path cause => "cannot create " ++ path ++ ": " ++ cause.message
  | refused operation => operation.name ++ " refused"

/-- What bytes are the bytes of. -/
abbrev TileKey := TileId × Layer

/-- The order of keys: by tile, then by layer. -/
def TileKey.atMost (a b : TileKey) : Bool :=
  a.1.before b.1 || (a.1 = b.1 && a.2.index ≤ b.2.index)

/-- The bytes of a layer of a tile and when they were stored, in milliseconds since 1970. -/
structure StoredTile where
  tile : TileId
  layer : Layer
  bytes : Bytes
  storedAt : Nat
  deriving DecidableEq, Repr

namespace StoredTile

/-- What stored bytes are the bytes of. -/
def key (s : StoredTile) : TileKey := (s.tile, s.layer)

/-- Whether stored bytes are no older than the limit. Bytes from the future are not old. -/
def isFresh (maxAge : Option Duration) (now : CalendarTime) (s : StoredTile) : Bool :=
  match maxAge with
  | none => true
  | some age => now.epochMillis - s.storedAt ≤ age.millis64

end StoredTile

/-- What a store is asked for. -/
class TileStore (σ : Type) where
  /-- What is stored of a layer of a tile. -/
  read : σ → TileId → Layer → Except StoreFailure (Option StoredTile)
  /-- Stores bytes. A failure may leave traces behind. -/
  write : σ → TileId → Layer → Bytes → CalendarTime → σ × Except StoreFailure Unit
  /-- All that is stored, at most as old as the limit. -/
  readAll : σ → Option Duration → CalendarTime → Except StoreFailure (List StoredTile)

end TileStream
