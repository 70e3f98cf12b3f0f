import TileStream.Proofs.Geo.Extent

/-! # Quads

The children of a quad are listed by their places, from the north-west to the south-east
(`TileId.childIndex_childList`), so a tile stands among the children of its parent at its own place
(`TileId.getElem?_childList`). The children that exist in a coverage keep this order
(`Coverage.children_exact`), also for an id that is as deep as ids go: it has none.

Doubling drops the highest bit of a coordinate, so two ids that differ there only have the same children.
Among the ids that leave this bit free each existing tile has exactly one quad, but for the root, which
has none (`Coverage.existsUnique_quad`). `Coverage.quads_partition` says all of this. -/

namespace TileStream

namespace TileId

variable {q t : TileId}

/-! ### Places -/

/-- The place of a tile is told by the parities of its row and of its column. -/
theorem childIndex_eq (t : TileId) : t.childIndex = t.y.toNat % 2 * 2 + t.x.toNat % 2 := by
  have hx : (t.x &&& 1).toNat = t.x.toNat % 2 := Nat.and_one_is_mod _
  have hy : (t.y &&& 1).toNat = t.y.toNat % 2 := Nat.and_one_is_mod _
  unfold childIndex
  rw [UInt32.toNat_add, UInt32.toNat_mul, hx, hy]
  simp only [UInt32.reduceToNat]
  omega

theorem eq_of_childIndex {t' : TileId} (h : t.parent? = some q) (h' : t'.parent? = some q)
    (hi : t.childIndex = t'.childIndex) : t = t' := by
  obtain ⟨hz, hx, hy⟩ := parent?_eq_some_iff.mp h
  obtain ⟨hz', hx', hy'⟩ := parent?_eq_some_iff.mp h'
  rw [childIndex_eq, childIndex_eq] at hi
  refine ext_toNat ?_ ?_ ?_ <;> omega

/-- **The children of a quad are listed by their places.** -/
theorem childIndex_childList (hq : q.IsQuad) : q.childList.map childIndex = List.range 4 := by
  have hx := toNat_double hq.x
  have hx' := toNat_double_succ hq.x
  have hy := toNat_double hq.y
  have hy' := toNat_double_succ hq.y
  show _ = [0, 1, 2, 3]
  simp only [childList, List.map_cons, List.map_nil, childIndex_eq, hx, hx', hy, hy', List.cons.injEq,
    and_true]
  refine ⟨?_, ?_, ?_, ?_⟩ <;> omega

theorem pairwise_childList (hq : q.IsQuad) :
    q.childList.Pairwise fun t t' => t.childIndex < t'.childIndex := by
  have hrange : (q.childList.map childIndex).Pairwise (· < ·) := by
    rw [childIndex_childList hq]
    exact List.pairwise_lt_range
  exact List.pairwise_map.mp hrange

/-- **A tile stands at its own place** among the children of its parent. -/
theorem getElem?_childList (h : t.parent? = some q) : q.childList[t.childIndex]? = some t := by
  have hq := isQuad_of_parent? h
  obtain ⟨i, hi, hget⟩ := List.getElem_of_mem ((mem_childList hq).mpr h)
  have hplace : (q.childList.map childIndex)[i]? = some t.childIndex := by
    rw [List.getElem?_map, List.getElem?_eq_getElem hi, hget]
    rfl
  have hfour : i < 4 := hi
  rw [childIndex_childList hq, List.getElem?_range hfour, Option.some.injEq] at hplace
  rw [← hplace, List.getElem?_eq_getElem hi, hget]

end TileId

namespace Coverage

variable {c : Coverage} {q : QuadId} {t : TileId} {tiles : List TileId}

/-! ### Existing children -/

theorem pairwise_children (hq : q.IsQuad) (h : c.children q = .ok tiles) :
    tiles.Pairwise fun t t' => t.childIndex < t'.childIndex := by
  rw [children_eq hq] at h
  cases h
  split
  · exact .nil
  · exact (TileId.pairwise_childList hq).filter _

/-- **Asked for its existing children** an id whose coordinates can be doubled answers with the existing
tiles whose parent it is, by their places. -/
theorem children_exact (c : Coverage) (hx : q.x.toNat < 2147483648) (hy : q.y.toNat < 2147483648) :
    ∃ tiles, c.children q = .ok tiles ∧ (tiles.Pairwise fun t t' => t.childIndex < t'.childIndex) ∧
      ∀ t, t ∈ tiles ↔ c.covers t = true ∧ t.parent? = some q := by
  by_cases hz : q.zoom.toNat < 255
  · have hq : q.IsQuad := ⟨hz, hx, hy⟩
    exact ⟨_, children_eq hq, pairwise_children hq (children_eq hq), fun t =>
      mem_children hq (children_eq hq)⟩
  · refine ⟨[], children_of_last hz, .nil, fun t => ?_⟩
    -- no tile lies below the last level
    have hnone : t.parent? ≠ some q := fun hp => hz (TileId.isQuad_of_parent? hp).zoom
    simp [hnone]

/-- **An existing tile that is not the root belongs to exactly one quad.** -/
theorem existsUnique_quad (ht : c.covers t = true) (hne : t ≠ TileId.root) :
    ∃! q : QuadId, (q.x.toNat < 2147483648 ∧ q.y.toNat < 2147483648) ∧
      ∃ tiles, c.children q = .ok tiles ∧ t ∈ tiles := by
  obtain ⟨q, hp⟩ := exists_parent_of_covers ht hne
  have hq := TileId.isQuad_of_parent? hp
  obtain ⟨tiles, htiles, -, hmem⟩ := c.children_exact hq.x hq.y
  refine ⟨q, ⟨⟨hq.x, hq.y⟩, tiles, htiles, (hmem t).mpr ⟨ht, hp⟩⟩, ?_⟩
  rintro q' ⟨⟨hx, hy⟩, tiles', htiles', hin⟩
  obtain ⟨same, hsame, -, hmem'⟩ := c.children_exact hx hy
  cases htiles'.symm.trans hsame
  exact Option.some.inj (((hmem' t).mp hin).2.symm.trans hp)

/-! ### All quads -/

/-- **Quads partition the tree.** Asked for the existing children of a quad, a coverage lists by their
places, each once, just the existing tiles whose parent it is. Every tile below the top level is found
among the children of its parent, at its own place. And every existing tile that is not the root is
listed for exactly one quad. -/
theorem quads_partition (c : Coverage) :
    (∀ q : QuadId, q.x.toNat < 2 ^ 31 → q.y.toNat < 2 ^ 31 →
      ∃ tiles, c.children q = .ok tiles ∧
        (tiles.Pairwise fun t t' => t.childIndex < t'.childIndex) ∧ tiles.Nodup ∧
        ∀ t, t ∈ tiles ↔ c.covers t = true ∧ t.parent? = some q) ∧
    (∀ t : TileId, 0 < t.zoom →
      ∃ q siblings, t.parent? = some q ∧ q.children = .ok siblings ∧
        siblings[t.childIndex]? = some t) ∧
    ∀ t, c.covers t = true → t ≠ TileId.root →
      ∃! q : QuadId, (q.x.toNat < 2 ^ 31 ∧ q.y.toNat < 2 ^ 31) ∧
        ∃ tiles, c.children q = .ok tiles ∧ t ∈ tiles := by
  refine ⟨fun q hx hy => ?_, fun t hz => ?_, fun t ht hne => existsUnique_quad ht hne⟩
  · obtain ⟨tiles, htiles, hplaces, hmem⟩ := c.children_exact hx hy
    have hnodup : tiles.Nodup := hplaces.imp fun hlt he => by
      rw [he] at hlt
      exact Nat.lt_irrefl _ hlt
    exact ⟨tiles, htiles, hplaces, hnodup, hmem⟩
  · cases hp : t.parent? with
    | none =>
      rw [TileId.parent?_eq_none_iff.mp hp] at hz
      exact absurd hz (by decide)
    | some q =>
      exact ⟨q, q.childList, rfl, TileId.children_eq (TileId.isQuad_of_parent? hp),
        TileId.getElem?_childList hp⟩

/-- The last tile of the deepest level, in a tree declared deeper than the levels supported. -/
theorem quads_partition_corner :
    let c : Coverage := ⟨255, none⟩
    let t : TileId := ⟨30, 0x3FFFFFFF, 0x3FFFFFFF⟩
    c.covers t = true ∧ t ≠ TileId.root ∧
      ∃! q : QuadId, (q.x.toNat < 2 ^ 31 ∧ q.y.toNat < 2 ^ 31) ∧
        ∃ tiles, c.children q = .ok tiles ∧ t ∈ tiles :=
  ⟨by decide, by decide, (quads_partition ⟨255, none⟩).2.2 _ (by decide) (by decide)⟩

/-- Without the bound on coordinates a tile would be listed for other ids, too. -/
example : let c : Coverage := ⟨255, none⟩
    c.children ⟨1, 0x80000001, 0⟩ = c.children ⟨1, 1, 0⟩ ∧
      c.children ⟨1, 1, 0⟩ = .ok [⟨2, 2, 0⟩, ⟨2, 3, 0⟩, ⟨2, 2, 1⟩, ⟨2, 3, 1⟩] := by decide

end Coverage

end TileStream
