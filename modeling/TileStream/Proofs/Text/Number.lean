import Mathlib.Data.Nat.Digits.Defs
import TileStream.Text.Number

/-! # Whole numbers written and read

A whole number is written with the ASCII digits of its decimal notation, and the reader of whole numbers
gives it back (`readWhole_toString`), so different numbers are written differently (`toString_inj`). The
text takes one byte a digit (`utf8ByteSize_toString_le`). -/

namespace TileStream.Text

variable {n m bound : ℕ} {c : Char}

theorem toList_toString (n : ℕ) : (toString n).toList = Nat.toDigits 10 n := Nat.toList_repr

theorem digitsValue_toDigits (n : ℕ) : digitsValue (Nat.toDigits 10 n) = n := by
  have h := @Nat.ofDigitChars_toDigits 10 n (by decide) (by decide)
  unfold Nat.ofDigitChars at h
  exact h

theorem isDigit_of_mem_toString (h : c ∈ (toString n).toList) : c.isDigit = true := by
  rw [toList_toString] at h
  exact Nat.isDigit_of_mem_toDigits (by decide) (by decide) h

theorem toString_ne_empty (n : ℕ) : toString n ≠ "" := by
  intro h
  have hnil := congrArg String.toList h
  rw [toList_toString] at hnil
  exact Nat.toDigits_ne_nil hnil

theorem not_mem_toString (hc : c.isDigit = false) : c ∉ (toString n).toList := by
  intro h
  rw [isDigit_of_mem_toString h] at hc
  cases hc

/-- **What is written is read back.** -/
theorem readWhole_toString (h : n < bound) : readWhole bound (toString n).toList = some n := by
  have hdigits : readDigits (toString n).toList = some n := by
    unfold readDigits
    rw [if_neg, toList_toString, digitsValue_toDigits]
    rw [Bool.or_eq_true, not_or, List.isEmpty_iff, toList_toString]
    refine ⟨Nat.toDigits_ne_nil, ?_⟩
    rw [Bool.not_eq_true', Bool.not_eq_false, List.all_eq_true]
    exact fun c hc => Nat.isDigit_of_mem_toDigits (by decide) (by decide) hc
  have hplus : ∀ rest, (toString n).toList ≠ '+' :: rest := fun rest hrest => by
    have hmem : '+' ∈ (toString n).toList := hrest ▸ List.mem_cons_self
    exact absurd (isDigit_of_mem_toString hmem) (by decide)
  unfold readWhole
  split
  · next rest hrest => exact absurd hrest (hplus rest)
  · dsimp only
    rw [hdigits, Option.filter_some, if_pos (decide_eq_true h)]

theorem toString_inj : toString n = toString m ↔ n = m := by
  refine ⟨fun h => ?_, fun h => h ▸ rfl⟩
  have hn := @readWhole_toString n (max n m + 1) (by omega)
  have hm := @readWhole_toString m (max n m + 1) (by omega)
  rw [h, hm] at hn
  exact (Option.some.inj hn).symm

/-! ### Bytes -/

theorem utf8ByteSize_ofDigits {cs : List Char} (h : ∀ c ∈ cs, c.isDigit = true) :
    (String.ofList cs).utf8ByteSize = cs.length := by
  induction cs with
  | nil => rfl
  | cons c cs ih =>
    have hdigit := h c List.mem_cons_self
    have hsize : c.utf8Size = 1 := by
      rw [Char.utf8Size_eq_one_iff]
      unfold Char.isDigit at hdigit
      simp only [Bool.and_eq_true, decide_eq_true_eq] at hdigit
      exact UInt32.le_trans hdigit.2 (by decide)
    rw [String.ofList_cons, String.utf8ByteSize_append, String.utf8ByteSize_singleton, hsize,
      ih fun d hd => h d (List.mem_cons_of_mem _ hd), List.length_cons, Nat.add_comm]

/-- **A number takes one byte a digit.** -/
theorem utf8ByteSize_toString_le {k : ℕ} (hk : 0 < k) (h : n < 10 ^ k) :
    (toString n).utf8ByteSize ≤ k := by
  have hdigits : ∀ c ∈ Nat.toDigits 10 n, c.isDigit = true := fun c hc =>
    Nat.isDigit_of_mem_toDigits (by decide) (by decide) hc
  have hsize : (toString n).utf8ByteSize = (Nat.toDigits 10 n).length :=
    utf8ByteSize_ofDigits hdigits
  rw [hsize, Nat.length_toDigits_le_iff (by decide) hk]
  exact h

end TileStream.Text
