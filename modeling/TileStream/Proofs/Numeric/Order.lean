import Mathlib.Data.Prod.Lex

/-! # The order of floats

Floats that are no NaN stand in a line: first by sign and kind, then by exponent, then by mantissa
(`Numeric.standing?`). One float is less than another when both stand in the line and it stands further
back (`lt_iff_standing`), so comparing is transitive (`lt_of_lt_of_le`, `lt_of_le_of_lt`), although no
float compares with NaN and the two zeros are equal. -/

open Float.Model

namespace TileStream.Numeric

/-- A place in the line of floats: sign and kind, exponent, mantissa. -/
abbrev Standing : Type := ℤ ×ₗ ℤ ×ₗ ℤ

/-- Where a float stands. The two zeros stand together, and NaN stands nowhere. -/
def standing? : UnpackedFloat → Option Standing
  | .notANumber => none
  | .infinity .negative => some (toLex (-2, toLex (0, 0)))
  | .finite .negative mantissa exponent _ => some (toLex (-1, toLex (-exponent, -(mantissa : ℤ))))
  | .zero _ => some (toLex (0, toLex (0, 0)))
  | .finite .positive mantissa exponent _ => some (toLex (1, toLex (exponent, (mantissa : ℤ))))
  | .infinity .positive => some (toLex (2, toLex (0, 0)))

/-! ### Floats taken apart -/

theorem then_compare_eq_lt {e e' : ℤ} {m m' : ℕ} :
    (compare e e').then (compare m m') = .lt ↔ e < e' ∨ e = e' ∧ m < m' := by
  rw [Ordering.then_eq_lt, Int.compare_eq_lt, Int.compare_eq_eq, Nat.compare_eq_lt]

theorem then_compare_eq_gt {e e' : ℤ} {m m' : ℕ} :
    (compare e e').then (compare m m') = .gt ↔ e' < e ∨ e = e' ∧ m' < m := by
  rw [Ordering.then_eq_gt, Int.compare_eq_gt, Int.compare_eq_eq, Nat.compare_eq_gt]

theorem isLE_then_compare {e e' : ℤ} {m m' : ℕ} :
    ((compare e e').then (compare m m')).isLE = true ↔ e < e' ∨ e = e' ∧ m ≤ m' := by
  rw [← Ordering.ne_gt_iff_isLE, then_compare_eq_gt]
  omega

theorem isGE_then_compare {e e' : ℤ} {m m' : ℕ} :
    ((compare e e').then (compare m m')).isGE = true ↔ e' < e ∨ e = e' ∧ m' ≤ m := by
  rw [← Ordering.ne_lt_iff_isGE, then_compare_eq_lt]
  omega

theorem unpacked_lt_iff {a b : UnpackedFloat} :
    a.lt b = true ↔ ∃ x y, standing? a = some x ∧ standing? b = some y ∧ x < y := by
  rcases a with (_ | _) | _ | _ | ⟨_ | _, m, e, _⟩ <;>
    rcases b with (_ | _) | _ | _ | ⟨_ | _, m', e', _⟩ <;>
    dsimp only [UnpackedFloat.lt, UnpackedFloat.compare, standing?] <;>
    simp [Prod.Lex.toLex_lt_toLex, then_compare_eq_lt, then_compare_eq_gt]
  -- what is left compares two signs
  rfl

theorem unpacked_le_iff {a b : UnpackedFloat} :
    a.le b = true ↔ ∃ x y, standing? a = some x ∧ standing? b = some y ∧ x ≤ y := by
  rcases a with (_ | _) | _ | _ | ⟨_ | _, m, e, _⟩ <;>
    rcases b with (_ | _) | _ | _ | ⟨_ | _, m', e', _⟩ <;>
    dsimp only [UnpackedFloat.le, UnpackedFloat.compare, standing?] <;>
    simp [Prod.Lex.toLex_le_toLex, isLE_then_compare, isGE_then_compare]
  all_goals rfl

/-! ### Comparing floats -/

variable {a b c : Float}

/-- **A float is less than another when it stands further back.** -/
theorem lt_iff_standing : a < b ↔ ∃ x y, standing? a.toModel.unpack = some x ∧
    standing? b.toModel.unpack = some y ∧ x < y := by
  rw [← unpacked_lt_iff]
  exact decide_eq_true_iff

theorem le_iff_standing : a ≤ b ↔ ∃ x y, standing? a.toModel.unpack = some x ∧
    standing? b.toModel.unpack = some y ∧ x ≤ y := by
  rw [← unpacked_le_iff]
  exact decide_eq_true_iff

theorem lt_of_lt_of_le (h : a < b) (h' : b ≤ c) : a < c := by
  obtain ⟨x, y, hx, hy, hlt⟩ := lt_iff_standing.mp h
  obtain ⟨y', z, hy', hz, hle⟩ := le_iff_standing.mp h'
  cases hy.symm.trans hy'
  exact lt_iff_standing.mpr ⟨x, z, hx, hz, hlt.trans_le hle⟩

theorem lt_of_le_of_lt (h : a ≤ b) (h' : b < c) : a < c := by
  obtain ⟨x, y, hx, hy, hle⟩ := le_iff_standing.mp h
  obtain ⟨y', z, hy', hz, hlt⟩ := lt_iff_standing.mp h'
  cases hy.symm.trans hy'
  exact lt_iff_standing.mpr ⟨x, z, hx, hz, hle.trans_lt hlt⟩

end TileStream.Numeric
