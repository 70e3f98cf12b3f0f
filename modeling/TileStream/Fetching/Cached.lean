import TileStream.Store.Basic
import TileStream.Table

/-!
# Fetching through a store

A source of tiles with a store in front of it. Fresh stored bytes are served without asking the
source, and what the source delivers is stored. Entries read ahead are kept in a warm set in memory
until they are first asked for. A store that fails is as good as one that holds nothing.

`CachedSource.fetch` takes the outcome that the source would give and returns, with the outcome,
what was accessed on the way; the source was asked exactly when `Access.ask` is there.
-/

namespace TileStream

/-- A source with a store in front of it, the age limit of stored bytes, and the warm set. -/
structure CachedSource (σ : Type) where
  store : σ
  maxAge : Option Duration
  warm : Table TileKey StoredTile

/-- What a cached source accesses. -/
inductive Access where
  /-- Everything in the store. -/
  | readAll (maxAge : Option Duration)
  /-- One entry of the store. -/
  | read (tile : TileId) (layer : Layer)
  /-- The source behind the store. -/
  | ask (tile : TileId) (layer : Layer)
  /-- One entry of the store, for writing. -/
  | write (tile : TileId) (layer : Layer) (bytes : Bytes)
  deriving DecidableEq, Repr

/-- What comes of a call of a cached source. -/
structure Served (σ α : Type) where
  source : CachedSource σ
  answer : α
  accesses : List Access

namespace CachedSource

variable {σ : Type} [TileStore σ]

/-- A source in front of which nothing is warm. -/
def ofStore (store : σ) (maxAge : Option Duration) : CachedSource σ := ⟨store, maxAge, .empty⟩

/-- The entries, the latest first. -/
def latestFirst (all : List StoredTile) : List StoredTile :=
  all.mergeSort fun a b => b.storedAt ≤ a.storedAt

/-- Puts the `limit` latest entries of the store into the warm set, beside what is warm already.
Tells how many are warm then. -/
def warmUp (c : CachedSource σ) (limit : Nat) (now : CalendarTime) :
    Served σ (Except StoreFailure Nat) :=
  match TileStore.readAll c.store c.maxAge now with
  | .error e => ⟨c, .error e, [.readAll c.maxAge]⟩
  | .ok all =>
    let warm := ((latestFirst all).take limit).foldl (fun w s => w.set s.key s) c.warm
    ⟨{ c with warm }, .ok warm.size, [.readAll c.maxAge]⟩

/-- Asks the source, whose outcome is given, and stores the bytes it delivers. -/
def ask (c : CachedSource σ) (tile : TileId) (layer : Layer) (outcome : Outcome)
    (now : CalendarTime) : Served σ Outcome :=
  match outcome with
  | .error e => ⟨c, .error e, [.ask tile layer]⟩
  | .ok bytes =>
    let (store, _) := TileStore.write c.store tile layer bytes now
    ⟨{ c with store }, .ok bytes, [.ask tile layer, .write tile layer bytes]⟩

/-- The fresh stored bytes of a layer of a tile. -/
def stored? (c : CachedSource σ) (tile : TileId) (layer : Layer) (now : CalendarTime) :
    Option StoredTile :=
  match TileStore.read c.store tile layer with
  | .ok (some s) => if s.isFresh c.maxAge now then some s else none
  | _ => none

/-- Fetches past the warm set. -/
def fetchCold (c : CachedSource σ) (tile : TileId) (layer : Layer) (outcome : Outcome)
    (now : CalendarTime) : Served σ Outcome :=
  let served : Served σ Outcome := match c.stored? tile layer now with
    | some s => ⟨c, .ok s.bytes, []⟩
    | none => c.ask tile layer outcome now
  { served with accesses := .read tile layer :: served.accesses }

/-- Fetches a layer of a tile. `outcome` is what the source would answer. A warm entry is used up,
whether or not it is fresh. -/
def fetch (c : CachedSource σ) (tile : TileId) (layer : Layer) (outcome : Outcome)
    (now : CalendarTime) : Served σ Outcome :=
  let used := { c with warm := c.warm.erase (tile, layer) }
  match c.warm.get? (tile, layer) with
  | some s =>
    if s.isFresh c.maxAge now then ⟨used, .ok s.bytes, []⟩
    else used.fetchCold tile layer outcome now
  | none => used.fetchCold tile layer outcome now

end CachedSource

end TileStream
