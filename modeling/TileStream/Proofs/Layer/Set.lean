import TileStream.Layer.Set

/-!
# Membership in sets of layers

A set of layers is a byte, and only three of its bits mean something. Erasing a layer takes its bit
and no other (`LayerSet.contains_erase`), a set without any bit has no layer, and the list of a set
holds each of its layers once. A set that layers alone make up (`LayerSet.Known`) stays one when a layer
is taken out, a set with other bits never becomes one (`LayerSet.known_erase_iff`), and the former has a
layer unless it is empty (`LayerSet.exists_contains`). A set made of a list is such a set, of the members
of the list (`LayerSet.contains_ofList`), two lists in a row make the union of their sets
(`LayerSet.ofList_append`), and such sets with the same layers are the same (`LayerSet.Known.ext`).
-/

namespace TileStream

namespace LayerSet

theorem not_bit_and_bit (l l' : Layer) : ~~~l.bit &&& l'.bit = if l' = l then 0 else l'.bit := by
  cases l <;> cases l' <;> decide

theorem contains_erase (s : LayerSet) (l l' : Layer) :
    (s.erase l).contains l' = (decide (l' ≠ l) && s.contains l') := by
  unfold contains erase
  rw [UInt8.and_assoc, not_bit_and_bit]
  by_cases h : l' = l <;> simp [h]

theorem not_contains_of_isEmpty {s : LayerSet} (h : s.isEmpty = true) (l : Layer) :
    s.contains l = false := by
  have h0 : s.bits = 0 := by simpa [isEmpty] using h
  simp [contains, h0]

/-- No bit is set but those of the layers. -/
def Known (s : LayerSet) : Prop := s.bits &&& all.bits = s.bits

instance (s : LayerSet) : Decidable s.Known := inferInstanceAs (Decidable (_ = _))

theorem bits_and_or (a b c : UInt8) : a &&& (b ||| c) = a &&& b ||| a &&& c := by
  rw [← UInt8.toBitVec_inj]
  simp only [UInt8.toBitVec_and, UInt8.toBitVec_or]
  exact BitVec.and_or_distrib_left

theorem known_erase {s : LayerSet} (h : s.Known) (l : Layer) : (s.erase l).Known := by
  unfold Known erase at *
  dsimp only
  rw [UInt8.and_assoc, UInt8.and_comm _ all.bits, ← UInt8.and_assoc, h]

/-- Taking out a layer takes out no bit that stands for none. -/
theorem known_erase_iff {s : LayerSet} {l : Layer} : (s.erase l).Known ↔ s.Known := by
  refine ⟨fun h => ?_, fun h => known_erase h l⟩
  unfold Known erase at *
  have hsplit : s.bits = s.bits &&& l.bit ||| s.bits &&& ~~~l.bit := by
    rw [← bits_and_or]
    simp
  have hbit : l.bit &&& all.bits = l.bit := by cases l <;> decide
  calc s.bits &&& all.bits
    _ = (s.bits &&& l.bit ||| s.bits &&& ~~~l.bit) &&& all.bits := by rw [← hsplit]
    _ = s.bits &&& (l.bit &&& all.bits) ||| s.bits &&& ~~~l.bit &&& all.bits := by
      rw [UInt8.and_comm, bits_and_or, UInt8.and_comm _ (s.bits &&& l.bit),
        UInt8.and_comm all.bits, UInt8.and_assoc]
    _ = s.bits := by rw [hbit, h, ← hsplit]

theorem known_of_isEmpty {s : LayerSet} (h : s.isEmpty = true) : s.Known := by
  have h0 : s.bits = 0 := by simpa [isEmpty] using h
  unfold Known
  rw [h0]
  rfl

/-- **A set made of layers is empty or has a layer.** -/
theorem exists_contains {s : LayerSet} (h : s.Known) (hne : s.isEmpty = false) :
    ∃ l, s.contains l = true := by
  refine Classical.byContradiction fun hnone => ?_
  have hbit : ∀ l : Layer, s.bits &&& l.bit = 0 := by
    intro l
    have hout : s.contains l = false := Bool.eq_false_iff.mpr fun hin => hnone ⟨l, hin⟩
    simpa [contains] using hout
  have hall : all.bits = Layer.height.bit ||| Layer.ortho.bit ||| Layer.vector.bit := by decide
  have hzero : s.bits = 0 := by
    rw [← h, hall, bits_and_or, bits_and_or, hbit, hbit, hbit]
    rfl
  simp [isEmpty, hzero] at hne

/-! ### Union -/

/-- The set of the layers of both, bit by bit. -/
def union (s t : LayerSet) : LayerSet := ⟨s.bits ||| t.bits⟩

theorem contains_union (s t : LayerSet) (l : Layer) :
    (s.union t).contains l = (s.contains l || t.contains l) := by
  unfold contains union
  rw [UInt8.and_comm, bits_and_or, UInt8.and_comm l.bit, UInt8.and_comm l.bit, Bool.eq_iff_iff]
  simp only [Bool.or_eq_true, bne_iff_ne, ne_eq, UInt8.or_eq_zero_iff, Classical.not_and_iff_not_or_not]

theorem known_union {s t : LayerSet} (hs : s.Known) (ht : t.Known) : (s.union t).Known := by
  unfold Known union at *
  dsimp only
  rw [UInt8.and_comm, bits_and_or, UInt8.and_comm all.bits, UInt8.and_comm all.bits, hs, ht]

theorem foldl_insert (s : LayerSet) (ls : List Layer) : ls.foldl insert s = s.union (ofList ls) := by
  induction ls generalizing s with
  | nil => simp [ofList, union, empty]
  | cons l ls ih =>
    rw [ofList, List.foldl_cons, List.foldl_cons, ih, ih (empty.insert l)]
    simp [union, insert, empty, UInt8.or_assoc]

theorem ofList_append (ls ls' : List Layer) : ofList (ls ++ ls') = (ofList ls).union (ofList ls') := by
  rw [ofList, List.foldl_append, foldl_insert]
  rfl

/-- **A set made of a list** has its members and no other bit. -/
theorem contains_ofList {ls : List Layer} {l : Layer} : (ofList ls).contains l = true ↔ l ∈ ls := by
  induction ls with
  | nil => cases l <;> decide
  | cons l' ls ih =>
    have hone : (ofList [l']).contains l = true ↔ l = l' := by cases l <;> cases l' <;> decide
    rw [← List.singleton_append, ofList_append, contains_union, Bool.or_eq_true, hone, ih,
      List.singleton_append, List.mem_cons]

theorem known_ofList (ls : List Layer) : (ofList ls).Known := by
  induction ls with
  | nil => decide
  | cons l ls ih =>
    have hone : (ofList [l]).Known := by cases l <;> decide
    rw [← List.singleton_append, ofList_append]
    exact known_union hone ih

/-- The bit of a layer is set or not, by whether the layer is in the set. -/
theorem and_bit (s : LayerSet) (l : Layer) : s.bits &&& l.bit = if s.contains l then l.bit else 0 := by
  have hpow : ∃ i, l.bit.toBitVec = BitVec.twoPow 8 i := by
    cases l with
    | height => exact ⟨0, by decide⟩
    | ortho => exact ⟨1, by decide⟩
    | vector => exact ⟨2, by decide⟩
  obtain ⟨i, hi⟩ := hpow
  have hbit : s.bits &&& l.bit = 0 ∨ s.bits &&& l.bit = l.bit := by
    rw [← UInt8.toBitVec_inj, ← UInt8.toBitVec_inj, UInt8.toBitVec_and, hi, BitVec.and_twoPow]
    cases s.bits.toBitVec.getLsbD i with
    | false => exact .inl rfl
    | true => exact .inr rfl
  have hne : l.bit ≠ 0 := by cases l <;> decide
  unfold contains
  rcases hbit with h | h <;> simp [h, hne]

/-- **A set that layers alone make up** is told by them. -/
theorem Known.ext {s t : LayerSet} (hs : s.Known) (ht : t.Known)
    (h : ∀ l, s.contains l = true ↔ t.contains l = true) : s = t := by
  have hall : all.bits = Layer.height.bit ||| Layer.ortho.bit ||| Layer.vector.bit := by decide
  have hbits : ∀ l : Layer, s.bits &&& l.bit = t.bits &&& l.bit := fun l => by
    rw [and_bit, and_bit, Bool.eq_iff_iff.mpr (h l)]
  have : s.bits = t.bits := by
    rw [← hs, ← ht, hall, bits_and_or, bits_and_or, bits_and_or, bits_and_or, hbits, hbits, hbits]
  cases s
  cases t
  exact congrArg mk this

/-! ### The list of a set -/

theorem mem_toList {s : LayerSet} {l : Layer} : l ∈ s.toList ↔ s.contains l = true := by
  have hall : l ∈ Layer.all := by cases l <;> simp [Layer.all]
  simp [toList, hall]

theorem nodup_toList (s : LayerSet) : s.toList.Nodup :=
  (show Layer.all.Nodup by decide).filter _

end LayerSet

end TileStream
