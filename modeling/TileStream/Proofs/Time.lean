import Mathlib.Data.Rat.Lemmas
import Mathlib.Algebra.Order.Field.Basic
import Mathlib.Algebra.Order.Ring.Rat
import Mathlib.Tactic.FieldSimp
import Mathlib.Tactic.Linarith
import TileStream.Time

/-! # Exact seconds

An instant is a whole number of nanoseconds and so an exact number of seconds (`Instant.seconds`). A
duration is read from an exact number of seconds unless it is too long (`Duration.ofSecondsRat_eq`), to
within half a nanosecond (`Duration.near_of_ofSecondsRat`), and none is left of half a nanosecond or less
(`Duration.ofSecondsRat_of_le`). -/

namespace TileStream

/-- Rounding moves a quotient by at most a half. -/
theorem roundHalfEven_near (num : Nat) {den : Nat} (hden : 0 < den) :
    2 * num ≤ 2 * (den * roundHalfEven num den) + den ∧
      2 * (den * roundHalfEven num den) ≤ 2 * num + den := by
  have hdiv : den * (num / den) + num % den = num := Nat.div_add_mod num den
  have hmod := Nat.mod_lt num hden
  unfold roundHalfEven
  dsimp only
  split
  · next hdown =>
    simp only [Bool.or_eq_true, decide_eq_true_eq, Bool.and_eq_true, beq_iff_eq] at hdown
    omega
  · next hup =>
    simp only [Bool.or_eq_true, decide_eq_true_eq, Bool.and_eq_true, beq_iff_eq] at hup
    rw [Nat.mul_add, Nat.mul_one]
    omega

theorem roundHalfEven_eq_zero {num den : Nat} (h : 2 * num ≤ den) (hden : 0 < den) :
    roundHalfEven num den = 0 := by
  have hlt : num < den := by omega
  unfold roundHalfEven
  rw [Nat.div_eq_of_lt hlt, Nat.mod_eq_of_lt hlt]
  dsimp only
  rw [if_pos]
  simp only [Bool.or_eq_true, decide_eq_true_eq, Bool.and_eq_true, beq_iff_eq, and_true]
  exact Nat.lt_or_eq_of_le h

namespace Duration

variable {x : Rat} {d : Duration}

/-- The nanoseconds of a number of seconds, as a quotient of whole numbers. -/
theorem nanos_eq_div (hx : 0 ≤ x) :
    x * nanosPerSecond = ((x.num.toNat * nanosPerSecond : Nat) : Rat) / x.den := by
  have hnum : ((x.num.toNat : Nat) : Rat) = x.num := by
    exact_mod_cast congrArg (Int.cast (R := Rat)) (Int.toNat_of_nonneg (Rat.num_nonneg.mpr hx))
  rw [Nat.cast_mul, hnum, mul_div_right_comm, Rat.num_div_den]

/-- The whole number of nanoseconds nearest to a number of seconds, ties to even. -/
def nearest (x : Rat) : Nat := roundHalfEven (x.num.toNat * nanosPerSecond) x.den

/-- Rounding to nanoseconds moves a time by at most half a nanosecond. -/
theorem nearest_near (hx : 0 ≤ x) :
    x * nanosPerSecond ≤ nearest x + 1 / 2 ∧ (nearest x : Rat) ≤ x * nanosPerSecond + 1 / 2 := by
  have hden : (0 : Rat) < x.den := by exact_mod_cast x.den_pos
  obtain ⟨hlow, hhigh⟩ := roundHalfEven_near (x.num.toNat * nanosPerSecond) x.den_pos
  rw [nanos_eq_div hx]
  unfold nearest
  generalize roundHalfEven (x.num.toNat * nanosPerSecond) x.den = r at hlow hhigh ⊢
  generalize x.num.toNat * nanosPerSecond = n at hlow hhigh ⊢
  have hlow' : 2 * (n : Rat) ≤ 2 * (x.den * r) + x.den := by exact_mod_cast hlow
  have hhigh' : 2 * ((x.den : Rat) * r) ≤ 2 * n + x.den := by exact_mod_cast hhigh
  constructor
  · rw [div_le_iff₀ hden]
    linarith
  · rw [← sub_le_iff_le_add, le_div_iff₀ hden]
    linarith

/-- Rounding does not go beyond a whole number of nanoseconds. -/
theorem nearest_le (hx : 0 ≤ x) {n : Nat} (hle : x * nanosPerSecond ≤ n) : nearest x ≤ n := by
  have hhalf := (nearest_near hx).2
  have hlt : (nearest x : Rat) < (n + 1 : Nat) := calc
    (nearest x : Rat) ≤ x * nanosPerSecond + 1 / 2 := hhalf
    _ ≤ n + 1 / 2 := add_le_add_left hle _
    _ < (n + 1 : Nat) := by
      push_cast
      linarith
  exact Nat.lt_succ_iff.mp (Nat.cast_lt.mp hlt)

/-- **A duration is read** when it is not too long. -/
theorem ofSecondsRat_eq (hx : 0 ≤ x) :
    ofSecondsRat x = if nearest x < limit then .ok ⟨nearest x⟩ else .error .timeRange := by
  unfold ofSecondsRat
  dsimp only
  rw [decide_eq_false hx.not_gt, Bool.false_or]
  show (if decide (limit ≤ nearest x) = true then _ else _) = _
  by_cases hlt : nearest x < limit
  · rw [if_pos hlt, if_neg (by simpa using hlt)]
    rfl
  · rw [if_neg hlt, if_pos (by simpa using hlt)]

/-- A number of seconds that is read is not negative, and the nearest duration is read. -/
theorem eq_of_ofSecondsRat (h : ofSecondsRat x = .ok d) : 0 ≤ x ∧ d = ⟨nearest x⟩ := by
  have hx : 0 ≤ x := by
    refine not_lt.mp fun hneg => ?_
    unfold ofSecondsRat at h
    rw [decide_eq_true hneg] at h
    cases h
  rw [ofSecondsRat_eq hx] at h
  split at h <;> cases h
  exact ⟨hx, rfl⟩

/-- **A duration is read to within half a nanosecond.** -/
theorem near_of_ofSecondsRat (h : ofSecondsRat x = .ok d) :
    x * nanosPerSecond ≤ d.nanos + 1 / 2 ∧ (d.nanos : Rat) ≤ x * nanosPerSecond + 1 / 2 := by
  obtain ⟨hx, rfl⟩ := eq_of_ofSecondsRat h
  exact nearest_near hx

/-- **Nothing is left of half a nanosecond or less.** -/
theorem ofSecondsRat_of_le (hx : 0 ≤ x) (hle : x * nanosPerSecond ≤ 1 / 2) :
    ofSecondsRat x = .ok ⟨0⟩ := by
  have hden : (0 : Rat) < x.den := by exact_mod_cast x.den_pos
  rw [nanos_eq_div hx, div_le_iff₀ hden] at hle
  have hsmall : 2 * (x.num.toNat * nanosPerSecond) ≤ x.den := by
    have hle' : 2 * ((x.num.toNat * nanosPerSecond : Nat) : Rat) ≤ x.den := by linarith
    exact_mod_cast hle'
  have hzero : nearest x = 0 := roundHalfEven_eq_zero hsmall x.den_pos
  rw [ofSecondsRat_eq hx, hzero]
  rfl

end Duration

namespace Instant

variable {t u : Instant} {d : Duration}

/-- The instant in seconds from the start. -/
def seconds (t : Instant) : Rat := t.nanos / nanosPerSecond

theorem seconds_le_iff : t.seconds ≤ u.seconds ↔ t.nanos ≤ u.nanos := by
  unfold seconds
  rw [div_le_div_iff_of_pos_right (by norm_num)]
  exact Int.cast_le

theorem seconds_add (t : Instant) (n : Nat) :
    (⟨t.nanos + n⟩ : Instant).seconds - t.seconds = n / nanosPerSecond := by
  unfold seconds
  rw [Int.cast_add, add_div, add_sub_cancel_left, Int.cast_natCast]

theorem after_eq_ok (h : t.after d = .ok u) :
    u = ⟨t.nanos + d.nanos⟩ ∧ t.nanos + d.nanos < limit := by
  unfold after at h
  split at h
  · next hlt =>
    cases h
    exact ⟨rfl, hlt⟩
  · cases h

end Instant

end TileStream
