import Mathlib.Algebra.Order.Ring.Rat
import Mathlib.Tactic.Positivity
import TileStream.Numeric.Binary
import TileStream.Proofs.Numeric.Order

/-! # The exact value of a float

The sign, mantissa and exponent that are read off the bits of a float are those of the float taken apart
(`Binary.ofFloat?_eq`). So a float that is finite and not zero or less has a positive exact value
(`Binary.ratOfFloat_pos`), however small. -/

open Float.Model UnpackedFloat

namespace TileStream.Binary

/-! ### The fields of the bits -/

section

variable (b : BitVec 64)

theorem toNat_unpackMantissa :
    (@unpackMantissa Format.binary64 b).toNat = b.toNat % hidden := by
  unfold unpackMantissa
  simp

theorem toNat_unpackExponent :
    (@unpackExponent Format.binary64 b).toNat = b.toNat / hidden % 2048 := by
  unfold unpackExponent
  simp [Nat.shiftRight_eq_div_pow]

theorem toNat_unpackSign :
    (@unpackSign Format.binary64 b).toNat = b.toNat / 9223372036854775808 := by
  unfold unpackSign
  have hlt := b.isLt
  simp only [BitVec.toNat_cast, BitVec.extractLsb_toNat, Nat.shiftRight_eq_div_pow]
  omega

theorem sign_eq_negative : (Sign.ofBitVec (@unpackSign Format.binary64 b) == .negative) =
    (b.toNat / 9223372036854775808 == 1) := by
  rw [← toNat_unpackSign]
  generalize @unpackSign Format.binary64 b = sign
  revert sign
  decide

/-- The hidden bit. -/
theorem toNat_one_append (mantissa : BitVec 52) : (1#1 ++ mantissa).toNat = hidden + mantissa.toNat := by
  rw [BitVec.toNat_append]
  exact (Nat.shiftLeft_add_eq_or_of_lt mantissa.isLt 1).symm

end

/-! ### Floats taken apart -/

/-- The parts of a float taken apart, none for an infinity or a NaN. -/
def parts? : UnpackedFloat → Option Binary
  | .finite sign mantissa exponent _ => some ⟨sign == .negative, mantissa, exponent⟩
  | .zero sign => some ⟨sign == .negative, 0, leastExponent⟩
  | .infinity _ | .notANumber => none

theorem parts?_finite {sign : Sign} {mantissa : Nat} {exponent : Int} (h : 0 < mantissa) :
    parts? (.finite sign mantissa exponent h) = some ⟨sign == .negative, mantissa, exponent⟩ := rfl

theorem parts?_unpack (b : BitVec 64) : parts? (UnpackedFloat.unpack Format.binary64 b) =
    if b.toNat / hidden % 2048 == 2047 then none
    else if b.toNat / hidden % 2048 == 0 then
      some ⟨b.toNat / 9223372036854775808 == 1, b.toNat % hidden, leastExponent⟩
    else some ⟨b.toNat / 9223372036854775808 == 1, hidden + b.toNat % hidden,
      leastExponent + ((b.toNat / hidden % 2048 : Nat) - 1)⟩ := by
  have hlast : @unpackExponent Format.binary64 b = -1#_ ↔ b.toNat / hidden % 2048 = 2047 := by
    rw [← BitVec.toNat_inj, toNat_unpackExponent]
    rfl
  have hfirst : @unpackExponent Format.binary64 b = 0#_ ↔ b.toNat / hidden % 2048 = 0 := by
    rw [← BitVec.toNat_inj, toNat_unpackExponent]
    rfl
  have hnone : @unpackMantissa Format.binary64 b = 0#_ ↔ b.toNat % hidden = 0 := by
    rw [← BitVec.toNat_inj, toNat_unpackMantissa]
    rfl
  have hbias : Format.binary64.exponentBias = 1023 := rfl
  unfold UnpackedFloat.unpack
  dsimp only
  rw [← sign_eq_negative]
  by_cases hall : b.toNat / hidden % 2048 = 2047
  · rw [if_pos (hlast.mpr hall), if_pos (beq_iff_eq.mpr hall)]
    split <;> rfl
  rw [if_neg (mt hlast.mp hall), if_neg (mt beq_iff_eq.mp hall)]
  by_cases hzero : b.toNat / hidden % 2048 = 0
  · rw [if_pos (hfirst.mpr hzero), if_pos (beq_iff_eq.mpr hzero)]
    by_cases hno : b.toNat % hidden = 0
    · rw [dif_pos (hnone.mpr hno), hno]
      rfl
    · rw [dif_neg (mt hnone.mp hno), parts?_finite, toNat_unpackMantissa, toNat_unpackExponent, hzero]
      rfl
  · rw [if_neg (mt hfirst.mp hzero), if_neg (mt beq_iff_eq.mp hzero), parts?_finite, toNat_one_append,
      toNat_unpackMantissa, toNat_unpackExponent, hbias]
    refine congrArg some (congrArg (Binary.mk _ _) ?_)
    unfold leastExponent
    omega

/-- **What is read off the bits** are the parts of the float. -/
theorem ofFloat?_eq (x : Float) : ofFloat? x = parts? x.toModel.unpack :=
  (parts?_unpack x.toModel.toBits.toBitVec).symm

/-! ### Exact values -/

theorem twoPow_pos (n : Int) : 0 < twoPow n := by
  unfold twoPow
  split
  · exact_mod_cast Nat.two_pow_pos _
  · exact one_div_pos.mpr (by exact_mod_cast Nat.two_pow_pos _)

/-- **A float that is finite and above zero has a positive value.** -/
theorem ratOfFloat_pos {x : Float} (hfinite : x.isFinite = true) (h : ¬ x ≤ 0.0) : 0 < ratOfFloat x := by
  have hzero : Numeric.standing? (0.0 : Float).toModel.unpack = some (toLex (0, toLex (0, 0))) := rfl
  have hstands : ∀ place, Numeric.standing? x.toModel.unpack = some place →
      ¬ place ≤ toLex (0, toLex (0, 0)) :=
    fun place hplace hle => h (Numeric.le_iff_standing.mpr ⟨place, _, hplace, hzero, hle⟩)
  have hfinite' : x.toModel.unpack.isFinite = true := hfinite
  rw [ratOfFloat, ofFloat?_eq]
  cases hx : x.toModel.unpack with
  | infinity sign | notANumber =>
    rw [hx] at hfinite'
    cases hfinite'
  | zero sign =>
    rw [hx] at hstands
    exact absurd le_rfl (hstands _ rfl)
  | finite sign mantissa exponent hpos =>
    rw [hx] at hstands
    cases sign with
    | negative =>
      exact absurd (Prod.Lex.toLex_le_toLex.mpr (.inl (show (-1 : ℤ) < 0 by decide))) (hstands _ rfl)
    | positive =>
      show 0 < (mantissa : Rat) * twoPow exponent
      exact mul_pos (Nat.cast_pos.mpr hpos) (twoPow_pos exponent)

end TileStream.Binary
