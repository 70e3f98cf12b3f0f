import TileStream.Proofs.Geo.Ancestors
import TileStream.Proofs.Numeric.Order

/-! # Tiles in an extent

A box that lies within another one meets no more than the other does (`Box.Within.intersects`). The boxes
of tiles are floats, and whether the box of a child lies within the box of its parent hangs on how the
projection is rounded, so it is asked for where it is needed (`Coverage.Nested`). Then the ancestors of
an existing tile exist (`Coverage.covers_of_mem_lineage`). Without an extent nothing is asked, and a tile
exists when another one of its quad does (`Coverage.covers_sibling`). -/

namespace TileStream

namespace Box

/-- The box lies within another one. -/
structure Within (a b : Box) : Prop where
  north : a.north ≤ b.north
  south : b.south ≤ a.south
  east : a.east ≤ b.east
  west : b.west ≤ a.west

theorem Within.intersects {a b e : Box} (h : a.Within b) (he : a.intersects e = true) :
    b.intersects e = true := by
  simp only [Box.intersects, Bool.and_eq_true, decide_eq_true_eq] at he ⊢
  obtain ⟨⟨⟨hs, hn⟩, hw⟩, hx⟩ := he
  exact ⟨⟨⟨Numeric.lt_of_le_of_lt h.south hs, Numeric.lt_of_lt_of_le hn h.north⟩,
    Numeric.lt_of_le_of_lt h.west hw⟩, Numeric.lt_of_lt_of_le hx h.east⟩

end Box

namespace Coverage

variable {c : Coverage} {t q a : TileId}

/-- **Boxes of children lie within the boxes of their parents,** as far as an extent makes them matter. -/
def Nested (c : Coverage) : Prop :=
  c.extent ≠ none → ∀ t q : TileId, t.isValid = true → t.parent? = some q →
    t.bounds.Within q.bounds

theorem nested_of_extent_eq_none (h : c.extent = none) : c.Nested := fun hne => absurd h hne

theorem covers_iff : c.covers t = true ↔ t.isValid = true ∧ t.zoom ≤ c.maxZoom ∧
    ∀ box, c.extent = some box → t.zoom = 0 ∨ t.bounds.intersects box = true := by
  unfold covers
  by_cases hv : t.isValid = true
  · by_cases hz : t.zoom ≤ c.maxZoom
    · have hlt : ¬ c.maxZoom < t.zoom := UInt8.not_lt.mpr hz
      cases c.extent <;> simp [hv, hz, hlt]
    · have hlt : c.maxZoom < t.zoom := UInt8.not_le.mp hz
      simp [hz, hlt]
  · simp [hv]

theorem isValid_of_covers (h : c.covers t = true) : t.isValid = true := (covers_iff.mp h).1

theorem zoom_le_of_covers (h : c.covers t = true) : t.zoom.toNat ≤ c.maxZoom.toNat :=
  UInt8.le_iff_toNat_le.mp (covers_iff.mp h).2.1

/-- Among the existing tiles only the root has no parent. -/
theorem exists_parent_of_covers (ht : c.covers t = true) (hne : t ≠ TileId.root) :
    ∃ q, t.parent? = some q := by
  cases hp : t.parent? with
  | none =>
    have hzoom := TileId.parent?_eq_none_iff.mp hp
    exact absurd (TileId.eq_root_of_isValid (isValid_of_covers ht) hzoom) hne
  | some q => exact ⟨q, rfl⟩

theorem covers_of_parent? (hc : c.Nested) (hp : t.parent? = some q) (ht : c.covers t = true) :
    c.covers q = true := by
  have hlevel := (TileId.parent?_eq_some_iff.mp hp).1
  obtain ⟨hv, hz, he⟩ := covers_iff.mp ht
  refine covers_iff.mpr ⟨TileId.isValid_of_parent? hp hv, ?_, fun box hbox => ?_⟩
  · rw [UInt8.le_iff_toNat_le] at hz ⊢
    omega
  · rcases he box hbox with h0 | hmeets
    · rw [h0] at hlevel
      cases hlevel
    · have hwithin := hc (by simp [hbox]) t q hv hp
      exact .inr (hwithin.intersects hmeets)

/-- **Without an extent** a tile exists when another one of its quad does. -/
theorem covers_sibling {t' : TileId} (hc : c.extent = none) (h : t.parent? = some q) (h' : t'.parent? = some q)
    (ht : c.covers t = true) : c.covers t' = true := by
  rw [covers_iff] at ht ⊢
  obtain ⟨hvalid, hzoom, -⟩ := ht
  have hsame : t'.zoom = t.zoom := UInt8.toNat_inj.mp
    ((TileId.parent?_eq_some_iff.mp h').1.trans (TileId.parent?_eq_some_iff.mp h).1.symm)
  refine ⟨TileId.isValid_of_sibling h h' hvalid, hsame ▸ hzoom, fun box hbox => ?_⟩
  rw [hc] at hbox
  cases hbox

/-- **The ancestors of an existing tile exist.** -/
theorem covers_of_mem_lineage (hc : c.Nested) (ha : a ∈ t.lineage) (ht : c.covers t = true) :
    c.covers a = true := by
  induction t using TileId.descend with
  | top t hp =>
    rw [TileId.lineage, TileId.ancestors_of_parent?_eq_none hp, List.mem_singleton] at ha
    rwa [ha]
  | child t q hp ih =>
    rcases TileId.mem_lineage.mp ha with rfl | ha
    · exact ht
    · rw [TileId.ancestors_eq_lineage hp] at ha
      exact ih ha (covers_of_parent? hc hp ht)

end Coverage

end TileStream
