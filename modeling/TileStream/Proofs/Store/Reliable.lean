import TileStream.Proofs.Table
import TileStream.Store.Memory

/-! # Stores that never fail

A reliable store does what a map from keys to entries does: reading gives the entry of the key, writing
sets it, and what is listed are entries of the map (`TileStore.Reliable`). Which states of a store hold
which map is left to the store. A store in memory is reliable as long as nothing is refused
(`MemoryStore.reliable`). -/

namespace TileStream

/-- What is stored of each key. -/
abbrev TileMap := TileKey → Option StoredTile

/-- The map after bytes were stored. -/
def TileMap.store (m : TileMap) (tile : TileId) (layer : Layer) (bytes : Bytes)
    (now : CalendarTime) : TileMap :=
  fun k => if k = (tile, layer) then some ⟨tile, layer, bytes, now.epochMillis⟩ else m k

/-- **A store that behaves like a map.** `holds s m` says that the store in the state `s` holds what
`m` says. A listing may leave out what it likes, such as entries that are too old. -/
structure TileStore.Reliable {σ : Type} [TileStore σ] (holds : σ → TileMap → Prop) : Prop where
  read : ∀ {s m}, holds s m → ∀ tile layer, TileStore.read s tile layer = .ok (m (tile, layer))
  write : ∀ {s m}, holds s m → ∀ tile layer bytes now, ∃ s',
    TileStore.write s tile layer bytes now = (s', .ok ()) ∧ holds s' (m.store tile layer bytes now)
  readAll : ∀ {s m}, holds s m → ∀ maxAge now, ∃ all,
    TileStore.readAll s maxAge now = .ok all ∧ ∀ e ∈ all, m e.key = some e

namespace MemoryStore

/-- Nothing is refused, the table says what the map says, and every entry has its own key. -/
structure Holds (s : MemoryStore) (m : TileMap) : Prop where
  refused : s.refused = []
  tiles : ∀ k, s.tiles.get? k = m k
  keyed : ∀ k e, m k = some e → e.key = k

theorem holds_empty : empty.Holds fun _ => none :=
  ⟨rfl, fun _ => rfl, fun _ _ h => by cases h⟩

variable {s : MemoryStore} {m : TileMap}

theorem Holds.unlessRefused {α : Type} (h : s.Holds m) (operation : StoreOperation) (a : α) :
    s.unlessRefused operation a = .ok a := by
  unfold MemoryStore.unlessRefused
  rw [h.refused]
  rfl

theorem Holds.insert (h : s.Holds m) (tile : TileId) (layer : Layer) (bytes : Bytes)
    (now : CalendarTime) : (s.insert ⟨tile, layer, bytes, now.epochMillis⟩).Holds
      (m.store tile layer bytes now) := by
  refine ⟨h.refused, fun k => ?_, fun k e he => ?_⟩
  · unfold MemoryStore.insert TileMap.store
    rw [Table.get?_set, h.tiles]
    rfl
  · unfold TileMap.store at he
    split at he
    · next hk =>
      cases he
      exact hk.symm
    · exact h.keyed k e he

theorem Holds.of_mem_all (h : s.Holds m) {e : StoredTile} (he : e ∈ s.all) : m e.key = some e := by
  have hmem : e ∈ s.tiles.values := List.mem_mergeSort.mp he
  obtain ⟨⟨k, _⟩, hentry, rfl⟩ := List.mem_map.mp hmem
  have hget := s.tiles.mem_entries_iff.mp hentry
  rw [h.tiles] at hget
  rw [h.keyed k _ hget]
  exact hget

/-- **A store in memory is reliable** while nothing is refused. -/
theorem reliable : TileStore.Reliable Holds where
  read h _ _ := (h.unlessRefused _ _).trans (congrArg _ (h.tiles _))
  write h tile layer bytes now :=
    ⟨_, by simp only [TileStore.write, h.unlessRefused], h.insert tile layer bytes now⟩
  readAll h _ _ := ⟨_, h.unlessRefused _ _, fun _ he => h.of_mem_all he⟩

end MemoryStore

end TileStream
