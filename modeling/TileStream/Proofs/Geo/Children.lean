import Mathlib.Data.List.Nodup
import TileStream.Geo.Coverage

/-!
# Children and parents

A quad is named by a parent, so its zoom is not the last one and its coordinates leave their highest
bit free (`TileId.IsQuad`). For such an id going down never faults, and its children are exactly the
tiles whose parent it is (`TileId.mem_children`). The children that exist in a coverage are the
covered ones among them (`Coverage.mem_children`), each listed once (`Coverage.nodup_children`).
-/

namespace TileStream

namespace TileId

/-! ### Halving and doubling coordinates -/

theorem toNat_half (v : UInt32) : (v >>> 1).toNat = v.toNat / 2 := by
  rw [UInt32.toNat_shiftRight]; simp [Nat.shiftRight_eq_div_pow]

theorem toNat_double {v : UInt32} (h : v.toNat < 2147483648) : (v <<< 1).toNat = 2 * v.toNat := by
  rw [UInt32.toNat_shiftLeft]
  simp only [UInt32.reduceToNat, Nat.reduceMod, Nat.shiftLeft_eq]
  omega

theorem toNat_double_succ {v : UInt32} (h : v.toNat < 2147483648) :
    (v <<< 1 + 1).toNat = 2 * v.toNat + 1 := by
  rw [UInt32.toNat_add, toNat_double h]
  simp only [UInt32.reduceToNat]
  omega

theorem nextCoordinate_double {v : UInt32} (h : v.toNat < 2147483648) :
    nextCoordinate (v <<< 1) = .ok (v <<< 1 + 1) := by
  have hne : v <<< 1 ≠ 0xFFFFFFFF := by
    intro he
    have := toNat_double h
    simp only [he, UInt32.reduceToNat] at this
    omega
  exact if_neg hne

theorem toNat_succ_zoom {z : UInt8} (h : z.toNat < 255) : (z + 1).toNat = z.toNat + 1 := by
  rw [UInt8.toNat_add]
  simp only [UInt8.reduceToNat]
  omega

theorem nextZoom_eq {z : UInt8} (h : z.toNat < 255) : nextZoom z = .ok (z + 1) := by
  have hne : z ≠ 255 := by
    rintro rfl
    exact absurd h (by decide)
  exact if_neg hne

/-! ### Quads -/

/-- The id is the parent of some tile. -/
structure IsQuad (q : TileId) : Prop where
  zoom : q.zoom.toNat < 255
  x : q.x.toNat < 2147483648
  y : q.y.toNat < 2147483648

theorem ext_toNat {a b : TileId} (hz : a.zoom.toNat = b.zoom.toNat) (hx : a.x.toNat = b.x.toNat)
    (hy : a.y.toNat = b.y.toNat) : a = b := by
  obtain ⟨az, ax, ay⟩ := a
  obtain ⟨bz, bx, by'⟩ := b
  rw [mk.injEq]
  exact ⟨UInt8.toNat_inj.mp hz, UInt32.toNat_inj.mp hx, UInt32.toNat_inj.mp hy⟩

/-- **A parent in numbers:** one level up, both coordinates halved. -/
theorem parent?_eq_some_iff {t q : TileId} : t.parent? = some q ↔
    t.zoom.toNat = q.zoom.toNat + 1 ∧ t.x.toNat / 2 = q.x.toNat ∧ t.y.toNat / 2 = q.y.toNat := by
  have hlt := t.zoom.toNat_lt
  by_cases hz : t.zoom = 0
  · have h0 : t.zoom.toNat = 0 := by rw [hz]; rfl
    simp [parent?, hz]
  · have hpos : t.zoom.toNat ≠ 0 := fun h0 => hz (UInt8.toNat_inj.mp h0)
    have hpred : (t.zoom - 1).toNat = t.zoom.toNat - 1 := by
      rw [UInt8.toNat_sub_of_le]
      · rfl
      · rw [UInt8.le_iff_toNat_le]
        show 1 ≤ t.zoom.toNat
        omega
    rw [parent?, if_neg hz, Option.some.injEq]
    constructor
    · rintro rfl
      refine ⟨?_, (toNat_half _).symm, (toNat_half _).symm⟩
      rw [hpred]
      omega
    · rintro ⟨h1, h2, h3⟩
      refine ext_toNat ?_ ?_ ?_
      · rw [hpred]; omega
      · rw [toNat_half]; exact h2
      · rw [toNat_half]; exact h3

theorem isQuad_of_parent? {t q : TileId} (h : t.parent? = some q) : q.IsQuad := by
  obtain ⟨hz, hx, hy⟩ := parent?_eq_some_iff.mp h
  have h1 := t.zoom.toNat_lt
  have h2 := t.x.toNat_lt
  have h3 := t.y.toNat_lt
  exact ⟨by omega, by omega, by omega⟩

/-! ### Children -/

/-- The children of a quad, in order. -/
def childList (q : TileId) : List TileId :=
  [⟨q.zoom + 1, q.x <<< 1, q.y <<< 1⟩, ⟨q.zoom + 1, q.x <<< 1 + 1, q.y <<< 1⟩,
    ⟨q.zoom + 1, q.x <<< 1, q.y <<< 1 + 1⟩, ⟨q.zoom + 1, q.x <<< 1 + 1, q.y <<< 1 + 1⟩]

/-- Going down from a quad never faults. -/
theorem children_eq {q : TileId} (hq : q.IsQuad) : q.children = .ok q.childList := by
  unfold children
  rw [nextZoom_eq hq.zoom]
  simp only [nextCoordinate_double hq.x, nextCoordinate_double hq.y]
  rfl

/-- **The children of a quad are the tiles whose parent it is.** -/
theorem mem_childList {q t : TileId} (hq : q.IsQuad) : t ∈ q.childList ↔ t.parent? = some q := by
  have hz := toNat_succ_zoom hq.zoom
  have hx := toNat_double hq.x
  have hx' := toNat_double_succ hq.x
  have hy := toNat_double hq.y
  have hy' := toNat_double_succ hq.y
  rw [parent?_eq_some_iff]
  constructor
  · intro ht
    simp only [childList, List.mem_cons, List.not_mem_nil, or_false] at ht
    rcases ht with rfl | rfl | rfl | rfl <;> refine ⟨hz, ?_, ?_⟩ <;> dsimp only <;> omega
  · rintro ⟨h1, h2, h3⟩
    -- which child it is, is told by the parities of its coordinates
    have hcol : t.x.toNat = 2 * q.x.toNat ∨ t.x.toNat = 2 * q.x.toNat + 1 := by omega
    have hrow : t.y.toNat = 2 * q.y.toNat ∨ t.y.toNat = 2 * q.y.toNat + 1 := by omega
    have hzoom : t.zoom.toNat = (q.zoom + 1).toNat := by rw [hz, h1]
    simp only [childList, List.mem_cons, List.not_mem_nil, or_false]
    rcases hcol with hc | hc <;> rcases hrow with hr | hr
    · exact .inl (ext_toNat hzoom (by rw [hc, hx]) (by rw [hr, hy]))
    · exact .inr (.inr (.inl (ext_toNat hzoom (by rw [hc, hx]) (by rw [hr, hy']))))
    · exact .inr (.inl (ext_toNat hzoom (by rw [hc, hx']) (by rw [hr, hy])))
    · exact .inr (.inr (.inr (ext_toNat hzoom (by rw [hc, hx']) (by rw [hr, hy']))))

theorem nodup_childList {q : TileId} (hq : q.IsQuad) : q.childList.Nodup := by
  have hx : q.x <<< 1 ≠ q.x <<< 1 + 1 := by
    intro h
    have := congrArg UInt32.toNat h
    rw [toNat_double hq.x, toNat_double_succ hq.x] at this
    omega
  have hy : q.y <<< 1 ≠ q.y <<< 1 + 1 := by
    intro h
    have := congrArg UInt32.toNat h
    rw [toNat_double hq.y, toNat_double_succ hq.y] at this
    omega
  simp [childList, hx, hy, hx.symm]

end TileId

namespace Coverage

variable {c : Coverage} {q : QuadId}

theorem children_eq (hq : q.IsQuad) :
    c.children q = .ok (if c.maxZoom ≤ q.zoom then [] else q.childList.filter c.covers) := by
  unfold children
  split
  · rfl
  · rw [TileId.children_eq hq]
    rfl

/-- Below the last level there is nothing. -/
theorem children_of_last (hz : ¬ q.zoom.toNat < 255) : c.children q = .ok [] := by
  refine if_pos ?_
  rw [UInt8.le_iff_toNat_le]
  have := c.maxZoom.toNat_lt
  omega

/-- Asking for the children of a quad whose coordinates can be doubled never faults. -/
theorem exists_children (c : Coverage) (hx : q.x.toNat < 2147483648) (hy : q.y.toNat < 2147483648) :
    ∃ tiles, c.children q = .ok tiles := by
  by_cases hz : q.zoom.toNat < 255
  · exact ⟨_, children_eq ⟨hz, hx, hy⟩⟩
  · exact ⟨_, children_of_last hz⟩

/-- A tile with existing children is a quad. -/
theorem isQuad_of_children (hx : q.x.toNat < 2147483648) (hy : q.y.toNat < 2147483648)
    {tiles : List TileId} (hc : c.children q = .ok tiles) (hne : tiles ≠ []) : q.IsQuad := by
  refine ⟨?_, hx, hy⟩
  by_contra hz
  rw [children_of_last hz] at hc
  cases hc
  exact hne rfl

/-- **The existing children of a quad are the covered tiles whose parent it is.** -/
theorem mem_children (hq : q.IsQuad) {tiles : List TileId} (h : c.children q = .ok tiles)
    {t : TileId} : t ∈ tiles ↔ c.covers t = true ∧ t.parent? = some q := by
  rw [children_eq hq] at h
  cases h
  split
  case isTrue hmax =>
    -- a child would lie deeper than the tree goes
    have hdeep : t.parent? = some q → c.covers t = false := by
      intro hp
      have h1 := (TileId.parent?_eq_some_iff.mp hp).1
      have h2 : c.maxZoom < t.zoom := by
        rw [UInt8.lt_iff_toNat_lt]
        rw [UInt8.le_iff_toNat_le] at hmax
        omega
      simp [covers, h2]
    simp only [List.not_mem_nil, false_iff, not_and]
    intro hcov hp
    rw [hdeep hp] at hcov
    cases hcov
  case isFalse =>
    rw [List.mem_filter, TileId.mem_childList hq, and_comm]

theorem nodup_children (hq : q.IsQuad) {tiles : List TileId} (h : c.children q = .ok tiles) :
    tiles.Nodup := by
  rw [children_eq hq] at h
  cases h
  split
  · exact List.nodup_nil
  · exact (TileId.nodup_childList hq).filter _

end Coverage

end TileStream
