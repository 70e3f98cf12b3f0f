import Mathlib.Algebra.Group.Nat.Defs
import Mathlib.Data.List.Infix
import TileStream.Proofs.Geo.Children

/-! # Ancestors

The parent of a tile lies one level up, so going up ends at the top level, and what holds of the tiles
there and goes down from a parent to its children holds of every tile (`TileId.descend`). A tile and its
ancestors are its lineage. Lineages are closed (`TileId.lineage_suffix`): the lineage of an ancestor is
the end of the lineage, so of two tiles of a lineage one is above the other (`TileId.above_or`).

The parent of a valid tile is valid, and the lineage of a valid tile ends at the root
(`TileId.root_mem_lineage`). -/

namespace TileStream

namespace TileId

variable {t q a b : TileId}

/-! ### Valid tiles -/

theorem toNat_gridSize {zoom : UInt8} (h : zoom.toNat ≤ 30) : (gridSize zoom).toNat = 2 ^ zoom.toNat := by
  have hle : zoom ≤ maxSupportedZoom := by
    rw [UInt8.le_iff_toNat_le]
    exact h
  have hmin : min zoom maxSupportedZoom = zoom := if_pos hle
  have hpow : 2 ^ zoom.toNat ≤ 2 ^ 30 := Nat.pow_le_pow_right (by decide) h
  unfold gridSize
  rw [hmin, UInt32.toNat_shiftLeft, UInt8.toNat_toUInt32, Nat.shiftLeft_eq,
    Nat.mod_eq_of_lt (show zoom.toNat < 32 by omega)]
  rw [UInt32.toNat_one, Nat.one_mul, Nat.mod_eq_of_lt (by omega)]

theorem isValid_iff : t.isValid = true ↔ t.zoom.toNat ≤ 30 ∧ t.x.toNat < 2 ^ t.zoom.toNat ∧
    t.y.toNat < 2 ^ t.zoom.toNat := by
  unfold isValid
  rw [Bool.and_eq_true, Bool.and_eq_true, decide_eq_true_eq, decide_eq_true_eq, decide_eq_true_eq,
    UInt8.le_iff_toNat_le, UInt32.lt_iff_toNat_lt, UInt32.lt_iff_toNat_lt, and_assoc]
  refine and_congr_right fun hz => ?_
  rw [toNat_gridSize hz]

theorem isValid_of_parent? (h : t.parent? = some q) (ht : t.isValid = true) : q.isValid = true := by
  obtain ⟨hz, hx, hy⟩ := parent?_eq_some_iff.mp h
  rw [isValid_iff] at ht ⊢
  obtain ⟨h30, htx, hty⟩ := ht
  rw [hz, Nat.pow_succ] at htx hty
  exact ⟨by omega, by omega, by omega⟩

theorem isValid_of_sibling {t' : TileId} (h : t.parent? = some q) (h' : t'.parent? = some q)
    (ht : t.isValid = true) : t'.isValid = true := by
  obtain ⟨hz, hx, hy⟩ := parent?_eq_some_iff.mp h
  obtain ⟨hz', hx', hy'⟩ := parent?_eq_some_iff.mp h'
  rw [isValid_iff] at ht ⊢
  obtain ⟨h30, htx, hty⟩ := ht
  rw [hz, Nat.pow_succ] at htx hty
  rw [hz', Nat.pow_succ]
  exact ⟨by omega, by omega, by omega⟩

theorem isQuad_of_isValid (h : t.isValid = true) : t.IsQuad := by
  obtain ⟨hz, hx, hy⟩ := isValid_iff.mp h
  have hpow : 2 ^ t.zoom.toNat ≤ 2 ^ 30 := Nat.pow_le_pow_right (by decide) hz
  exact ⟨by omega, by omega, by omega⟩

theorem eq_root_of_isValid (h : t.isValid = true) (hz : t.zoom = 0) : t = root := by
  obtain ⟨-, hx, hy⟩ := isValid_iff.mp h
  rw [hz] at hx hy
  refine ext_toNat (by rw [hz]; rfl) ?_ ?_
  · exact Nat.lt_one_iff.mp hx
  · exact Nat.lt_one_iff.mp hy

theorem parent?_eq_none_iff : t.parent? = none ↔ t.zoom = 0 := by
  unfold parent?
  split
  · next h => simp [h]
  · next h => simp [h]

theorem isQuad_root : root.IsQuad := isQuad_of_isValid (by decide)

/-! ### Going up -/

/-- **What holds at the top level and goes down to children holds everywhere.** -/
theorem descend {motive : TileId → Prop} (top : ∀ t, t.parent? = none → motive t)
    (child : ∀ t q, t.parent? = some q → motive q → motive t) (t : TileId) : motive t := by
  induction hn : t.zoom.toNat generalizing t with
  | zero => exact top t (parent?_eq_none_iff.mpr (UInt8.toNat_inj.mp hn))
  | succ n ih =>
    cases hp : t.parent? with
    | none =>
      rw [parent?_eq_none_iff.mp hp] at hn
      cases hn
    | some q =>
      have hz := (parent?_eq_some_iff.mp hp).1
      exact child t q hp (ih q (by omega))

theorem ancestors_of_parent?_eq_none (h : t.parent? = none) : t.ancestors = [] := by
  rw [ancestors, parent?_eq_none_iff.mp h]
  rfl

theorem ancestors_of_parent? (h : t.parent? = some q) : t.ancestors = q :: q.ancestors := by
  rw [ancestors, (parent?_eq_some_iff.mp h).1, ancestorsOver, h]
  rfl

/-- The tile and its ancestors, the nearest first. -/
def lineage (t : TileId) : List TileId := t :: t.ancestors

theorem mem_lineage_self (t : TileId) : t ∈ t.lineage := List.mem_cons_self

theorem mem_lineage : a ∈ t.lineage ↔ a = t ∨ a ∈ t.ancestors := List.mem_cons

theorem ancestors_eq_lineage (h : t.parent? = some q) : t.ancestors = q.lineage :=
  ancestors_of_parent? h

/-- **The lineage of an ancestor is the end of the lineage.** -/
theorem lineage_suffix (h : a ∈ t.lineage) : a.lineage <:+ t.lineage := by
  induction t using descend with
  | top t hp =>
    rw [lineage, ancestors_of_parent?_eq_none hp, List.mem_singleton] at h
    rw [h]
  | child t q hp ih =>
    rcases mem_lineage.mp h with rfl | h
    · exact List.suffix_rfl
    · rw [ancestors_eq_lineage hp] at h
      have hq : q.lineage <:+ t.lineage := by
        rw [← ancestors_eq_lineage hp]
        exact List.suffix_cons t _
      exact (ih h).trans hq

theorem mem_lineage_trans (h : b ∈ a.lineage) (h' : a ∈ t.lineage) : b ∈ t.lineage :=
  (lineage_suffix h').mem h

theorem mem_ancestors_trans (h : b ∈ a.ancestors) (h' : a ∈ t.lineage) : b ∈ t.ancestors := by
  rcases mem_lineage.mp h' with rfl | h'
  · exact h
  · obtain ⟨q, hq⟩ : ∃ q, t.parent? = some q := by
      cases hp : t.parent? with
      | none =>
        rw [ancestors_of_parent?_eq_none hp] at h'
        cases h'
      | some q => exact ⟨q, rfl⟩
    rw [ancestors_eq_lineage hq] at h' ⊢
    exact mem_lineage_trans (List.mem_cons_of_mem _ h) h'

theorem zoom_lt_of_mem_ancestors (h : a ∈ t.ancestors) : a.zoom.toNat < t.zoom.toNat := by
  induction t using descend with
  | top t hp =>
    rw [ancestors_of_parent?_eq_none hp] at h
    cases h
  | child t q hp ih =>
    have hz := (parent?_eq_some_iff.mp hp).1
    rw [ancestors_of_parent? hp] at h
    rcases List.mem_cons.mp h with rfl | h
    · omega
    · have := ih h
      omega

/-- Below an ancestor there is a tile of the lineage on the next level. -/
theorem exists_child_of_mem_ancestors (h : a ∈ t.ancestors) :
    ∃ k ∈ t.lineage, k.parent? = some a := by
  induction t using descend with
  | top t hp =>
    rw [ancestors_of_parent?_eq_none hp] at h
    cases h
  | child t q hp ih =>
    rw [ancestors_of_parent? hp] at h
    rcases List.mem_cons.mp h with rfl | h
    · exact ⟨t, mem_lineage_self t, hp⟩
    · obtain ⟨k, hk, hka⟩ := ih h
      refine ⟨k, ?_, hka⟩
      rw [lineage, ancestors_eq_lineage hp]
      exact List.mem_cons_of_mem _ hk

/-- **Of two tiles of a lineage one is above the other.** -/
theorem above_or (ha : a ∈ t.lineage) (hb : b ∈ t.lineage) (hne : a ≠ b) :
    a ∈ b.ancestors ∨ b ∈ a.ancestors := by
  rcases List.suffix_or_suffix_of_suffix (lineage_suffix ha) (lineage_suffix hb) with hs | hs
  · rcases mem_lineage.mp (hs.mem (mem_lineage_self a)) with he | h
    · exact absurd he hne
    · exact .inl h
  · rcases mem_lineage.mp (hs.mem (mem_lineage_self b)) with he | h
    · exact absurd he.symm hne
    · exact .inr h

/-- **Going up from a valid tile ends at the root.** -/
theorem root_mem_lineage (ht : t.isValid = true) : root ∈ t.lineage := by
  induction t using descend with
  | top t hp =>
    rw [eq_root_of_isValid ht (parent?_eq_none_iff.mp hp)]
    exact mem_lineage_self root
  | child t q hp ih =>
    rw [lineage, ancestors_eq_lineage hp]
    exact List.mem_cons_of_mem _ (ih (isValid_of_parent? hp ht))

end TileId

end TileStream
