import TileStream.Proofs.Geo.Order
import TileStream.Proofs.Geo.Refinement

/-! # The draw list

The draw list holds the finest wanted tiles, those without a wanted child (`Coverage.Finest`). The draw
list only looks one level down, but its tiles cover the world without gap or overlap:

* no two of them lie above one another, since with a tile its ancestors are wanted
  (`Finest.eq_of_mem_lineage`);
* one of them lies above each tile of the deepest level, since children of one parent are wanted
  together (`exists_finest_above`);
* one of them lies below each wanted tile (`exists_finest_below`).

`Coverage.drawList_tiles` puts them together. -/

namespace TileStream

namespace Coverage

variable {c : Coverage} {p : TileId → Bool} {t q d : TileId}

/-- A wanted tile without a wanted child. -/
structure Finest (c : Coverage) (p : TileId → Bool) (d : TileId) : Prop where
  wanted : c.Wanted p d
  childless : ∀ k, k.parent? = some d → ¬ c.Wanted p k

/-! ### No overlap -/

/-- **A finest tile lies above no other.** -/
theorem Finest.not_mem_ancestors (hc : c.Nested) (hd : c.Finest p d) {d' : TileId}
    (hd' : c.Wanted p d') : d ∉ d'.ancestors := by
  intro h
  obtain ⟨k, hk, hpar⟩ := TileId.exists_child_of_mem_ancestors h
  refine hd.childless k hpar ?_
  rcases TileId.mem_lineage.mp hk with rfl | hk
  · exact hd'
  · exact hd'.of_mem_ancestors hc hk (ne_root_of_parent? hpar)

theorem Finest.eq_of_mem_lineage (hc : c.Nested) (hd : c.Finest p d) (hmem : d ∈ t.lineage)
    {d' : TileId} (hd' : c.Finest p d') (hmem' : d' ∈ t.lineage) : d' = d := by
  by_contra hne
  rcases TileId.above_or hmem' hmem hne with h | h
  · exact hd'.not_mem_ancestors hc hd.wanted h
  · exact hd.not_mem_ancestors hc hd'.wanted h

/-! ### No gap -/

/-- Going up from an existing tile below the root, the first wanted tile is the tile itself or has a
child on the way that is not wanted. -/
theorem exists_wanted_above (hc : c.Nested) (hroot : p TileId.root = true) (ht : c.covers t = true)
    (hne : t ≠ TileId.root) : ∃ d ∈ t.lineage, c.Wanted p d ∧
      (d = t ∨ ∃ k ∈ t.lineage, k.parent? = some d ∧ ¬ c.Wanted p k) := by
  induction t using TileId.descend with
  | top t hp =>
    have := TileId.eq_root_of_isValid (isValid_of_covers ht) (TileId.parent?_eq_none_iff.mp hp)
    exact absurd this hne
  | child t q hp ih =>
    by_cases hw : c.Wanted p t
    · exact ⟨t, TileId.mem_lineage_self t, hw, .inl rfl⟩
    have hline : ∀ a ∈ q.lineage, a ∈ t.lineage := fun a ha => by
      rw [TileId.mem_lineage, TileId.ancestors_eq_lineage hp]
      exact .inr ha
    by_cases hq : q = TileId.root
    · -- the root is refined, so its existing children are wanted
      refine absurd ⟨ht, hne, fun a ha => ?_⟩ hw
      rw [TileId.ancestors_of_parent? hp, hq] at ha
      rw [List.mem_singleton.mp ha]
      exact hroot
    · obtain ⟨d, hd, hdw, hstop⟩ := ih (covers_of_parent? hc hp ht) hq
      refine ⟨d, hline d hd, hdw, .inr ?_⟩
      rcases hstop with rfl | ⟨k, hk, hkd, hkw⟩
      · exact ⟨t, TileId.mem_lineage_self t, hp, hw⟩
      · exact ⟨k, hline k hk, hkd, hkw⟩

/-- **A finest tile lies above each existing tile that has no existing children.** -/
theorem exists_finest_above (hc : c.Nested) (hroot : p TileId.root = true) (ht : c.covers t = true)
    (hne : t ≠ TileId.root) (hdeepest : ∀ k, k.parent? = some t → c.covers k = false) :
    ∃ d ∈ t.lineage, c.Finest p d := by
  obtain ⟨d, hd, hdw, hstop⟩ := exists_wanted_above hc hroot ht hne
  refine ⟨d, hd, hdw, fun k' hk' hw => ?_⟩
  rcases hstop with rfl | ⟨k, hk, hkd, hkw⟩
  · have hcov := hw.covers
    rw [hdeepest k' hk'] at hcov
    cases hcov
  · exact hkw (hw.of_parent? hk' (covers_of_mem_lineage hc hk ht) hkd)

/-- **A finest tile lies below each wanted tile.** Going down ends, since no tile lies deeper than the
tree. -/
theorem exists_finest_below (ht : c.Wanted p t) : ∃ d, c.Finest p d ∧ t ∈ d.lineage := by
  induction hn : c.maxZoom.toNat - t.zoom.toNat generalizing t with
  | zero =>
    refine ⟨t, ⟨ht, fun k hk hw => ?_⟩, TileId.mem_lineage_self t⟩
    have hlevel := (TileId.parent?_eq_some_iff.mp hk).1
    have := zoom_le_of_covers hw.covers
    omega
  | succ n ih =>
    by_cases hfinest : c.Finest p t
    · exact ⟨t, hfinest, TileId.mem_lineage_self t⟩
    have hkid : ∃ k, k.parent? = some t ∧ c.Wanted p k := by
      by_contra hnone
      exact hfinest ⟨ht, fun k hk hw => hnone ⟨k, hk, hw⟩⟩
    obtain ⟨k, hk, hw⟩ := hkid
    have hlevel := (TileId.parent?_eq_some_iff.mp hk).1
    obtain ⟨d, hd, hkd⟩ := ih hw (by omega)
    refine ⟨d, hd, TileId.mem_lineage_trans ?_ hkd⟩
    rw [TileId.mem_lineage, TileId.ancestors_eq_lineage hk]
    exact .inr (TileId.mem_lineage_self t)

/-! ### The list -/

/-- Looking for the finest of some tiles does not fault when each of them has children. -/
theorem leaves_eq {needed : List TileId} (h : ∀ t ∈ needed, t.IsQuad) : Culling.leaves needed =
    .ok (TileId.ordered (needed.filter fun t => !t.childList.any needed.contains)) := by
  have hkeep : ∀ t ∈ needed, (do
      return !(← t.children).any (Std.HashSet.ofList needed).contains : Checked Bool) =
        .ok (!t.childList.any needed.contains) := by
    intro t ht
    have hcontains : (Std.HashSet.ofList needed).contains = needed.contains := by
      funext k
      exact Std.HashSet.contains_ofList
    rw [TileId.children_eq (h t ht), hcontains]
    rfl
  unfold Culling.leaves
  dsimp only
  rw [filterM_eq_ok hkeep]
  rfl

/-- **The draw list of wanted tiles lists the finest of them.** -/
theorem exists_leaves {needed : List TileId} (h : ∀ t, t ∈ needed ↔ c.Wanted p t) :
    ∃ drawn, Culling.leaves needed = .ok drawn ∧ (∀ d, d ∈ drawn ↔ c.Finest p d) ∧
      drawn.Pairwise fun a b => a.before b = true := by
  have hquad : ∀ t ∈ needed, t.IsQuad := fun t ht =>
    TileId.isQuad_of_isValid (isValid_of_covers ((h t).mp ht).covers)
  refine ⟨_, leaves_eq hquad, fun d => ?_, TileId.pairwise_ordered _⟩
  rw [TileId.mem_ordered, List.mem_filter, Bool.not_eq_true', Bool.eq_false_iff, Ne,
    List.any_eq_true]
  simp only [List.contains_iff_mem]
  constructor
  · rintro ⟨hd, hnone⟩
    refine ⟨(h d).mp hd, fun k hk hw => hnone ⟨k, ?_, (h k).mpr hw⟩⟩
    exact (TileId.mem_childList (hquad d hd)).mpr hk
  · intro hd
    have hmem := (h d).mpr hd.wanted
    refine ⟨hmem, fun ⟨k, hk, hw⟩ => ?_⟩
    exact hd.childless k ((TileId.mem_childList (hquad d hmem)).mp hk) ((h k).mp hw)

variable {κ : Type}

/-- **The draw list tiles the world.** Take a coverage of the whole world with a level below the root, and
a test that never faults and finds the root too coarse. Then every valid tile of the deepest level has
exactly one tile of the draw list among itself and its ancestors. The tiles of the draw list are needed,
they come in strictly increasing order, and every needed tile is on the way from the root to one of
them. The culling used in flight draws that list wherever its own test does not fault. -/
theorem drawList_tiles (c : Coverage) (hextent : c.extent = none) (hmin : 1 ≤ c.maxZoom)
    (refine : κ → TileId → Checked Bool) (camera : κ) (p : TileId → Bool)
    (hp : ∀ t, refine camera t = .ok (p t)) (hroot : p TileId.root = true) :
    ∃ needed drawn, c.culling refine camera = .ok needed ∧
      (c.culling refine).drawList camera = .ok drawn ∧
      (∀ t : TileId, t.isValid = true → t.zoom = c.maxZoom → ∃! d, d ∈ drawn ∧ d ∈ t.lineage) ∧
      (∀ d ∈ drawn, d ∈ needed) ∧ (drawn.Pairwise fun a b => a.before b = true) ∧
      (∀ t ∈ needed, ∃ d ∈ drawn, t ∈ d.lineage) ∧
      ∀ (e : ScreenSpaceError) (view : Camera), e.coverage = c → (∀ t, e.refines view t = .ok (p t)) →
        e.culling.drawList view = .ok drawn := by
  have hc := nested_of_extent_eq_none hextent
  obtain ⟨needed, hneeded, hmem⟩ := exists_needed (p := p) hc
  obtain ⟨drawn, hdrawn, hfinest, hsorted⟩ := exists_leaves hmem
  have hdraws : ∀ {ι : Type} (culling : Culling ι) (view : ι), culling view = .ok needed →
      culling.drawList view = .ok drawn := fun culling view h => by
    rw [Culling.drawList, h]
    exact hdrawn
  refine ⟨needed, drawn, hneeded _ hp, hdraws _ _ (hneeded _ hp), fun t ht hz => ?_, fun d hd => ?_,
    hsorted, fun t ht => ?_, ?_⟩
  · have hcov : c.covers t = true := covers_iff.mpr
      ⟨ht, by rw [hz]; exact UInt8.le_refl _, fun box hbox => by rw [hextent] at hbox; cases hbox⟩
    have hne : t ≠ TileId.root := by
      rintro rfl
      rw [← hz] at hmin
      exact absurd hmin (by decide)
    have hdeepest : ∀ k, k.parent? = some t → c.covers k = false := fun k hk => by
      by_contra hcovk
      have hlevel := (TileId.parent?_eq_some_iff.mp hk).1
      have := zoom_le_of_covers (Bool.eq_true_of_not_eq_false hcovk)
      rw [← hz] at this
      omega
    obtain ⟨d, hd, hdf⟩ := exists_finest_above hc hroot hcov hne hdeepest
    refine ⟨d, ⟨(hfinest d).mpr hdf, hd⟩, fun d' hd' => ?_⟩
    exact hdf.eq_of_mem_lineage hc hd ((hfinest d').mp hd'.1) hd'.2
  · exact (hmem d).mpr ((hfinest d).mp hd).wanted
  · obtain ⟨d, hdf, htd⟩ := exists_finest_below ((hmem t).mp ht)
    exact ⟨d, (hfinest d).mpr hdf, htd⟩
  · rintro e view rfl he
    exact hdraws _ _ (hneeded _ he)

/-- A view of which one quarter is refined once more. -/
theorem drawList_tiles_one_quarter :
    let c : Coverage := ⟨2, none⟩
    let coarse : TileId → Bool := fun t => t = TileId.root || t = ⟨1, 0, 0⟩
    let refine : Unit → TileId → Checked Bool := fun _ t => .ok (coarse t)
    c.extent = none ∧ 1 ≤ c.maxZoom ∧ (∀ t, refine () t = .ok (coarse t)) ∧
      coarse TileId.root = true ∧
      ∃ drawn, (c.culling refine).drawList () = .ok drawn ∧
        (∃! d, d ∈ drawn ∧ d ∈ TileId.lineage ⟨2, 1, 0⟩) ∧
        ∃! d, d ∈ drawn ∧ d ∈ TileId.lineage ⟨2, 3, 3⟩ := by
  intro c coarse refine
  obtain ⟨needed, drawn, -, hdrawn, htiles, -⟩ :=
    drawList_tiles c rfl (by decide) refine () coarse (fun _ => rfl) (by decide)
  exact ⟨rfl, by decide, fun _ => rfl, by decide, drawn, hdrawn, htiles _ (by decide) rfl,
    htiles _ (by decide) rfl⟩

end Coverage

end TileStream
