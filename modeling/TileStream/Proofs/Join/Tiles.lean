import TileStream.Join.Tiles
import TileStream.Proofs.Layer.Set
import TileStream.Proofs.Table

/-!
# What the tile joins wait for

A fetch is awaited (`TileJoins.Awaits`) when its tile is being loaded and its layer is still
outstanding there. Ordering a tile that is not being loaded makes its fetches awaited, which were
not before, and an outcome takes exactly its own fetch out again; nothing else changes what is
awaited. An outcome that is not awaited changes nothing at all (`deliver_of_not_awaits`).
-/

namespace TileStream

namespace TileJoins

variable {a : TileJoins} {tile : TileId} {layer : Layer} {outcome : Outcome}

/-- The outcome of a fetch is outstanding. -/
def Awaits (a : TileJoins) (f : Fetch) : Prop :=
  ∃ j, a.pending.get? f.tile = some j ∧ j.outstanding.contains f.layer = true

/-- Each record kept is the record of its tile. -/
def Keyed (a : TileJoins) : Prop := ∀ t j, a.pending.get? t = some j → j.record.id = t

theorem keyed_ofLayers (layers : LayerSet) : (ofLayers layers).Keyed := fun _ _ h => by cases h

theorem not_awaits_ofLayers (layers : LayerSet) (f : Fetch) : ¬ (ofLayers layers).Awaits f :=
  fun ⟨_, h, _⟩ => by cases h

theorem isLoading_of_awaits {f : Fetch} (h : a.Awaits f) : a.isLoading f.tile = true := by
  obtain ⟨j, hj, -⟩ := h
  exact a.pending.contains_iff.mpr ⟨j, hj⟩

/-! ### The layers stay -/

theorem layers_load (a : TileJoins) (tile : TileId) : (a.load tile).1.layers = a.layers := by
  unfold load
  split
  · rfl
  · split <;> rfl

theorem layers_deliver (a : TileJoins) (tile : TileId) (layer : Layer) (outcome : Outcome) :
    (a.deliver tile layer outcome).1.layers = a.layers := by
  unfold deliver
  split
  · rfl
  · split
    · rfl
    · dsimp only
      split <;> rfl

/-! ### Ordering a tile -/

/-- The joins with a tile of which all is awaited. -/
def opened (a : TileJoins) (tile : TileId) : TileJoins :=
  { a with pending := a.pending.set tile ⟨.empty tile, a.layers⟩ }

/-- The fetches of a tile. -/
def fetchesOf (a : TileJoins) (tile : TileId) : List Fetch :=
  a.layers.toList.map fun layer => ⟨tile, layer⟩

theorem load_cases (a : TileJoins) (tile : TileId) :
    (a.isLoading tile = true ∧ a.load tile = (a, .alreadyLoading)) ∨
    (a.isLoading tile = false ∧ a.load tile = (a, .complete (.empty tile))) ∨
    (a.isLoading tile = false ∧ a.load tile = (a.opened tile, .fetch (a.fetchesOf tile))) := by
  unfold load
  cases h : a.pending.contains tile with
  | true => exact .inl ⟨h, by simp⟩
  | false =>
    cases a.layers.isEmpty with
    | true => exact .inr (.inl ⟨h, by simp⟩)
    | false => exact .inr (.inr ⟨h, by simp [opened, fetchesOf]⟩)

theorem load_complete {a' : TileJoins} {record : TileRecord}
    (h : a.load tile = (a', .complete record)) :
    a' = a ∧ record = .empty tile ∧ a.layers.isEmpty = true := by
  unfold load at h
  split at h
  · cases h
  · split at h
    · next he =>
      cases h
      exact ⟨rfl, rfl, he⟩
    · cases h

theorem load_fetch {a' : TileJoins} {requests : List Fetch} (h : a.load tile = (a', .fetch requests)) :
    a.isLoading tile = false ∧ a' = a.opened tile ∧ requests = a.fetchesOf tile ∧
      a.layers.isEmpty = false := by
  unfold load at h
  split at h
  · cases h
  · next hidle =>
    split at h
    · cases h
    · next hsome =>
      cases h
      exact ⟨Bool.eq_false_iff.mpr hidle, rfl, rfl, Bool.eq_false_iff.mpr hsome⟩

theorem fetchesOf_opened (a : TileJoins) (tile t : TileId) :
    (a.opened tile).fetchesOf t = a.fetchesOf t := rfl

theorem get?_opened (a : TileJoins) (tile t : TileId) :
    (a.opened tile).pending.get? t =
      if t = tile then some ⟨.empty tile, a.layers⟩ else a.pending.get? t :=
  Table.get?_set _ _ _ _

theorem keyed_opened (ha : a.Keyed) : (a.opened tile).Keyed := by
  intro t j h
  rw [get?_opened] at h
  split at h
  · next he => cases h; exact he.symm
  · exact ha t j h

theorem isLoading_opened (t : TileId) :
    (a.opened tile).isLoading t = (decide (t = tile) || a.isLoading t) :=
  Table.contains_set _ _ _ _

theorem mem_fetchesOf {f : Fetch} :
    f ∈ a.fetchesOf tile ↔ f.tile = tile ∧ a.layers.contains f.layer = true := by
  simp only [fetchesOf, List.mem_map, LayerSet.mem_toList]
  constructor
  · rintro ⟨l, hl, rfl⟩
    exact ⟨rfl, hl⟩
  · rintro ⟨rfl, hl⟩
    exact ⟨f.layer, hl, rfl⟩

theorem nodup_fetchesOf (a : TileJoins) (tile : TileId) : (a.fetchesOf tile).Nodup := by
  refine a.layers.nodup_toList.map fun l l' h => ?_
  simpa using h

/-- **Ordering a tile makes its fetches awaited.** -/
theorem awaits_opened (h : a.isLoading tile = false) (f : Fetch) :
    (a.opened tile).Awaits f ↔ a.Awaits f ∨ f ∈ a.fetchesOf tile := by
  have hnone := a.pending.contains_eq_false_iff.mp h
  rw [mem_fetchesOf]
  unfold Awaits
  rw [get?_opened]
  by_cases he : f.tile = tile
  · simp [he, hnone]
  · simp [he]

theorem not_awaits_of_mem_fetchesOf (h : a.isLoading tile = false) {f : Fetch}
    (hf : f ∈ a.fetchesOf tile) : ¬ a.Awaits f := by
  intro hw
  have hl := isLoading_of_awaits hw
  rw [(mem_fetchesOf.mp hf).1, h] at hl
  cases hl

/-! ### Taking in an outcome -/

/-- **An outcome that is not awaited changes nothing.** -/
theorem deliver_of_not_awaits (h : ¬ a.Awaits ⟨tile, layer⟩) :
    a.deliver tile layer outcome = (a, none) := by
  unfold deliver
  cases hp : a.pending.get? tile with
  | none => rfl
  | some j =>
    have hout : j.outstanding.contains layer = false :=
      Bool.eq_false_iff.mpr fun hc => h ⟨j, hp, hc⟩
    simp [hout]

/-- What an outcome leaves of a tile's join. -/
def after (j : TileJoin) (layer : Layer) (outcome : Outcome) : TileJoin :=
  ⟨j.record.setLayer layer (.ofOutcome outcome), j.outstanding.erase layer⟩

/-- An awaited outcome either leaves the tile waiting for more, or it was the last one. -/
theorem deliver_of_awaits (h : a.Awaits ⟨tile, layer⟩) (outcome : Outcome) :
    ∃ j, a.pending.get? tile = some j ∧
    (((after j layer outcome).outstanding.isEmpty = false ∧
      a.deliver tile layer outcome =
        ({ a with pending := a.pending.set tile (after j layer outcome) }, none)) ∨
    ((after j layer outcome).outstanding.isEmpty = true ∧
      a.deliver tile layer outcome =
        ({ a with pending := a.pending.erase tile }, some (after j layer outcome).record))) := by
  obtain ⟨j, hj, hc⟩ := h
  refine ⟨j, hj, ?_⟩
  unfold deliver
  rw [hj]
  simp only [hc, Bool.not_true, Bool.false_eq_true, if_false]
  cases he : (j.outstanding.erase layer).isEmpty with
  | true => exact .inr ⟨he, by simp [after]⟩
  | false => exact .inl ⟨he, by simp [after]⟩

theorem keyed_deliver (ha : a.Keyed) : (a.deliver tile layer outcome).1.Keyed := by
  by_cases h : a.Awaits ⟨tile, layer⟩
  · obtain ⟨j, hj, ⟨-, hd⟩ | ⟨-, hd⟩⟩ := deliver_of_awaits h outcome
    · rw [hd]
      intro t k hk
      rw [Table.get?_set] at hk
      split at hk
      · next he => cases hk; rw [he]; exact ha tile j hj
      · exact ha t k hk
    · rw [hd]
      intro t k hk
      rw [Table.get?_erase] at hk
      split at hk
      · cases hk
      · exact ha t k hk
  · rw [deliver_of_not_awaits h]
    exact ha

/-- **An outcome takes its own fetch out of what is awaited,** and no other. -/
theorem awaits_deliver (f : Fetch) :
    (a.deliver tile layer outcome).1.Awaits f ↔ a.Awaits f ∧ f ≠ ⟨tile, layer⟩ := by
  by_cases h : a.Awaits ⟨tile, layer⟩
  · obtain ⟨j, hj, ⟨-, hd⟩ | ⟨hempty, hd⟩⟩ := deliver_of_awaits h outcome
    · rw [hd]
      unfold Awaits
      rw [Table.get?_set]
      obtain ⟨t, l⟩ := f
      by_cases he : t = tile
      · subst he
        simp [hj, after, LayerSet.contains_erase, and_comm]
      · simp [he]
    · rw [hd]
      unfold Awaits
      rw [Table.get?_erase]
      obtain ⟨t, l⟩ := f
      by_cases he : t = tile
      · -- no bit is left, so the tile waited for no other layer
        subst he
        have hleft := LayerSet.not_contains_of_isEmpty hempty l
        simp only [after, LayerSet.contains_erase] at hleft
        simp [hj]
        rintro hc
        simpa [hc] using hleft
      · simp [he]
  · rw [deliver_of_not_awaits h]
    constructor
    · intro hf
      exact ⟨hf, fun he => h (he ▸ hf)⟩
    · exact fun hf => hf.1

/-! ### Tiles that can still be finished -/

/-- Every tile being loaded waits for a layer that can be fetched. -/
structure Live (a : TileJoins) : Prop where
  known : a.layers.Known
  waits : ∀ t j, a.pending.get? t = some j →
    j.outstanding.Known ∧ j.outstanding.isEmpty = false

theorem live_ofLayers {layers : LayerSet} (h : layers.Known) : (ofLayers layers).Live :=
  ⟨h, fun _ _ hj => by cases hj⟩

theorem Live.exists_awaits (ha : a.Live) (h : a.isLoading tile = true) :
    ∃ layer, a.Awaits ⟨tile, layer⟩ := by
  obtain ⟨j, hj⟩ := a.pending.contains_iff.mp h
  obtain ⟨hknown, hne⟩ := ha.waits tile j hj
  obtain ⟨layer, hin⟩ := LayerSet.exists_contains hknown hne
  exact ⟨layer, j, hj, hin⟩

theorem Live.load (ha : a.Live) (tile : TileId) : (a.load tile).1.Live := by
  refine ⟨by rw [layers_load]; exact ha.known, fun t j hj => ?_⟩
  unfold TileJoins.load at hj
  split at hj
  · exact ha.waits t j hj
  · split at hj
    · exact ha.waits t j hj
    · next hne =>
      rw [Table.get?_set] at hj
      split at hj
      · cases hj
        exact ⟨ha.known, Bool.eq_false_iff.mpr hne⟩
      · exact ha.waits t j hj

theorem Live.deliver (ha : a.Live) (tile : TileId) (layer : Layer) (outcome : Outcome) :
    (a.deliver tile layer outcome).1.Live := by
  refine ⟨by rw [layers_deliver]; exact ha.known, fun t k hk => ?_⟩
  by_cases hw : a.Awaits ⟨tile, layer⟩
  · obtain ⟨j, hj, ⟨hne, hd⟩ | ⟨-, hd⟩⟩ := deliver_of_awaits hw outcome
    · rw [hd, Table.get?_set] at hk
      split at hk
      · cases hk
        exact ⟨LayerSet.known_erase (ha.waits tile j hj).1 layer, hne⟩
      · exact ha.waits t k hk
    · rw [hd, Table.get?_erase] at hk
      split at hk
      · cases hk
      · exact ha.waits t k hk
  · rw [deliver_of_not_awaits hw] at hk
    exact ha.waits t k hk

/-- A tile stops being loaded when its record comes out. -/
theorem isLoading_deliver {finished : Option TileRecord} (ha : a.Keyed) {a' : TileJoins}
    (h : a.deliver tile layer outcome = (a', finished)) :
    (finished = none ∧ ∀ t, a'.isLoading t = a.isLoading t) ∨
    (∃ record, finished = some record ∧ record.id = tile ∧ a.isLoading tile = true ∧
      ∀ t, a'.isLoading t = (decide (t ≠ tile) && a.isLoading t)) := by
  by_cases hw : a.Awaits ⟨tile, layer⟩
  · have hl := isLoading_of_awaits hw
    obtain ⟨j, hj, ⟨-, hd⟩ | ⟨-, hd⟩⟩ := deliver_of_awaits hw outcome
    · rw [hd] at h
      cases h
      refine .inl ⟨rfl, fun t => ?_⟩
      show (a.pending.set tile _).contains t = _
      rw [Table.contains_set]
      by_cases he : t = tile
      · subst he; simpa using hl.symm
      · simp [he]; rfl
    · rw [hd] at h
      cases h
      exact .inr ⟨_, rfl, ha tile j hj, hl, fun t => Table.contains_erase _ _ _⟩
  · rw [deliver_of_not_awaits hw] at h
    cases h
    exact .inl ⟨rfl, fun _ => rfl⟩

end TileJoins

end TileStream
