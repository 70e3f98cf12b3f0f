import Mathlib.Data.List.Nodup
import Mathlib.Logic.Function.Basic
import TileStream.Gpu.Delta

/-! # What a delta comes to

What is shown is told by lookups: the record of a quad, if it has one. A delta fits what is shown
when it removes distinct quads that are shown and adds records of distinct quads that are not shown
or were removed before (`ResidencyDelta.Fits`). `ResidencyDelta.onto` is what is shown after it.

* `fits_remove`, `fits_add`: a delta that fits goes on to fit when a quad shown after it is removed
  or a record not shown after it is added, and does just that as well.
* `fits_merge`: two deltas that fit one after the other fit as one, and come to the same. -/

namespace TileStream

/-- The records by quad, as far as there are any. -/
abbrev Shown : Type := QuadId → Option QuadRecord

namespace ResidencyDelta

variable {d later : ResidencyDelta} {u : Shown} {record : QuadRecord} {quad : QuadId}

/-- The record that a delta adds for a quad. -/
def record? (d : ResidencyDelta) (quad : QuadId) : Option QuadRecord :=
  d.added.find? fun r => r.id = quad

/-- **What is shown after a delta:** what it adds, and what was there and is not removed. -/
def onto (d : ResidencyDelta) (u : Shown) : Shown := fun quad =>
  (d.record? quad).or (if quad ∈ d.removed then none else u quad)

/-- **The delta fits what is shown.** -/
structure Fits (d : ResidencyDelta) (u : Shown) : Prop where
  removed_nodup : d.removed.Nodup
  removed_shown : ∀ q ∈ d.removed, u q ≠ none
  added_nodup : d.addedIds.Nodup
  added_missing : ∀ q ∈ d.addedIds, u q = none ∨ q ∈ d.removed

/-! ### Lookups -/

theorem find?_id_eq_none {records : List QuadRecord} {q : QuadId} :
    records.find? (fun r => r.id = q) = none ↔ q ∉ records.map (·.id) := by
  simp

theorem record?_eq_none : d.record? quad = none ↔ quad ∉ d.addedIds := find?_id_eq_none

theorem find?_filter_id (rs : List QuadRecord) (k q : QuadId) :
    (rs.filter fun r => r.id ≠ k).find? (fun r => r.id = q) =
      if q = k then none else rs.find? fun r => r.id = q := by
  rw [List.find?_filter]
  split
  · next he =>
    subst he
    simp
  · next hne =>
    congr 1
    funext r
    by_cases hr : r.id = q
    · simp [hr, hne]
    · simp [hr]

/-- A record that a delta adds is the one it adds for its quad. -/
theorem record?_of_mem (hn : d.addedIds.Nodup) (hr : record ∈ d.added) :
    d.record? record.id = some record := by
  obtain ⟨removed, added⟩ := d
  show added.find? _ = _
  induction added with
  | nil => cases hr
  | cons r rs ih =>
    obtain ⟨hout, hn⟩ := List.nodup_cons.mp (show (r.id :: rs.map (·.id)).Nodup from hn)
    rcases List.mem_cons.mp hr with rfl | hr
    · simp
    · have hne : r.id ≠ record.id := fun he => hout (he ▸ List.mem_map_of_mem hr)
      rw [List.find?_cons_of_neg (by simpa using hne)]
      exact ih hn hr

theorem record?_add (q : QuadId) :
    (d.add record).record? q = if q = record.id then some record else d.record? q := by
  unfold record? add
  rw [List.find?_append, find?_filter_id]
  by_cases he : q = record.id
  · simp [he]
  · simp [he, Ne.symm he]

theorem record?_remove (q : QuadId) :
    (d.remove quad).record? q = if q = quad then none else d.record? q := by
  unfold record? remove
  dsimp only
  split <;> exact find?_filter_id _ _ _

theorem addedIds_remove : (d.remove quad).addedIds = d.addedIds.filter fun q => q ≠ quad := by
  unfold addedIds remove
  dsimp only
  split <;> rw [List.filter_map] <;> rfl

theorem addedIds_add :
    (d.add record).addedIds = (d.addedIds.filter fun q => q ≠ record.id) ++ [record.id] := by
  unfold addedIds add
  rw [List.map_append, List.filter_map]
  rfl

theorem removed_remove : (d.remove quad).removed =
    if quad ∈ d.addedIds ∨ quad ∈ d.removed then d.removed else d.removed ++ [quad] := by
  have hlen : (d.added.filter fun r => r.id ≠ quad).length = d.added.length ↔
      quad ∉ d.addedIds := by
    rw [List.length_filter_eq_length_iff]
    simp [addedIds]
  unfold remove
  dsimp only
  split
  · next h =>
    rw [Bool.and_eq_true, decide_eq_true_eq, hlen, Bool.not_eq_true', List.contains_eq_mem,
      decide_eq_false_iff_not] at h
    rw [if_neg (not_or.mpr h)]
  · next h =>
    rw [Bool.and_eq_true, decide_eq_true_eq, hlen, Bool.not_eq_true', List.contains_eq_mem,
      decide_eq_false_iff_not, ← not_or, not_not] at h
    rw [if_pos h]

/-! ### One change more -/

theorem fits_empty (u : Shown) : Fits empty u :=
  ⟨List.nodup_nil, fun q hq => (by cases hq), List.nodup_nil, fun q hq => (by cases hq)⟩

theorem onto_empty (u : Shown) : onto empty u = u := by
  funext q
  simp [onto, record?, empty]

/-- **Removing a quad that is shown.** It is taken back when the delta itself brought it. -/
theorem fits_remove (hd : d.Fits u) (hq : d.onto u quad ≠ none) :
    (d.remove quad).Fits u ∧ (d.remove quad).onto u = Function.update (d.onto u) quad none := by
  have hadded : (d.remove quad).addedIds.Nodup := by
    rw [addedIds_remove]
    exact hd.added_nodup.filter _
  have hmissing : ∀ q ∈ (d.remove quad).addedIds, u q = none ∨ q ∈ d.removed := by
    intro q hq
    rw [addedIds_remove] at hq
    exact hd.added_missing q (List.mem_of_mem_filter hq)
  by_cases ha : quad ∈ d.addedIds
  · have hremoved : (d.remove quad).removed = d.removed := by rw [removed_remove, if_pos (.inl ha)]
    refine ⟨⟨hremoved ▸ hd.removed_nodup, hremoved ▸ hd.removed_shown, hadded,
      hremoved ▸ hmissing⟩, ?_⟩
    funext q
    rw [Function.update_apply, onto, record?_remove, hremoved]
    split
    · next he =>
      -- the delta brought the quad, so it was not shown before or was removed
      subst he
      rcases hd.added_missing q ha with hnone | hin
      · simp [hnone]
      · simp [hin]
    · rfl
  · rw [onto, record?_eq_none.mpr ha, Option.none_or] at hq
    have hout : quad ∉ d.removed := fun hin => hq (if_pos hin)
    rw [if_neg hout] at hq
    have hremoved : (d.remove quad).removed = d.removed ++ [quad] := by
      rw [removed_remove, if_neg (not_or.mpr ⟨ha, hout⟩)]
    refine ⟨⟨?_, fun q hin => ?_, hadded, fun q hin => ?_⟩, ?_⟩
    · rw [hremoved]
      refine List.nodup_append.mpr ⟨hd.removed_nodup, List.nodup_singleton _, ?_⟩
      rintro q hin q' hq' rfl
      exact hout (List.mem_singleton.mp hq' ▸ hin)
    · rw [hremoved, List.mem_append, List.mem_singleton] at hin
      rcases hin with hin | rfl
      · exact hd.removed_shown q hin
      · exact hq
    · rw [hremoved]
      exact (hmissing q hin).imp_right (List.mem_append_left _)
    · funext q
      rw [Function.update_apply, onto, record?_remove, hremoved]
      by_cases he : q = quad
      · simp [he]
      · simp [he, onto]

/-- **Adding a record of a quad that is not shown.** -/
theorem fits_add (hd : d.Fits u) (hr : d.onto u record.id = none) :
    (d.add record).Fits u ∧
      (d.add record).onto u = Function.update (d.onto u) record.id (some record) := by
  rw [onto, Option.or_eq_none_iff] at hr
  obtain ⟨hfresh, hgone⟩ := hr
  refine ⟨⟨hd.removed_nodup, hd.removed_shown, ?_, fun q hq => ?_⟩, ?_⟩
  · rw [addedIds_add]
    refine List.nodup_append.mpr ⟨hd.added_nodup.filter _, List.nodup_singleton _, ?_⟩
    rintro q hin q' hq' rfl
    rw [List.mem_singleton] at hq'
    simp [hq'] at hin
  · rw [addedIds_add, List.mem_append, List.mem_singleton] at hq
    rcases hq with hq | rfl
    · exact hd.added_missing q (List.mem_of_mem_filter hq)
    · by_cases hin : record.id ∈ d.removed
      · exact .inr hin
      · rw [if_neg hin] at hgone
        exact .inl hgone
  · funext q
    rw [Function.update_apply, onto, record?_add]
    split
    · rfl
    · rfl

/-! ### Many changes more -/

theorem fits_foldl_remove (hd : d.Fits u) (quads : List QuadId) (hn : quads.Nodup)
    (hq : ∀ q ∈ quads, d.onto u q ≠ none) :
    (quads.foldl remove d).Fits u ∧
      (quads.foldl remove d).onto u = fun q => if q ∈ quads then none else d.onto u q := by
  induction quads generalizing d with
  | nil => exact ⟨hd, by simp⟩
  | cons quad rest ih =>
    obtain ⟨hout, hn⟩ := List.nodup_cons.mp hn
    obtain ⟨hfits, honto⟩ := fits_remove hd (hq quad List.mem_cons_self)
    obtain ⟨hfits', honto'⟩ := ih hfits hn fun q hin => by
      have hne : q ≠ quad := fun he => hout (he ▸ hin)
      rw [honto, Function.update_of_ne hne]
      exact hq q (List.mem_cons_of_mem _ hin)
    refine ⟨hfits', honto'.trans ?_⟩
    funext q
    rw [honto, Function.update_apply]
    by_cases he : q = quad <;> simp [he]

theorem fits_foldl_add (hd : d.Fits u) (records : List QuadRecord)
    (hn : (records.map (·.id)).Nodup) (hr : ∀ r ∈ records, d.onto u r.id = none) :
    (records.foldl add d).Fits u ∧ (records.foldl add d).onto u =
      fun q => (records.find? fun r => r.id = q).or (d.onto u q) := by
  induction records generalizing d with
  | nil => exact ⟨hd, by simp⟩
  | cons record rest ih =>
    rw [List.map_cons] at hn
    obtain ⟨hout, hn⟩ := List.nodup_cons.mp hn
    obtain ⟨hfits, honto⟩ := fits_add hd (hr record List.mem_cons_self)
    obtain ⟨hfits', honto'⟩ := ih hfits hn fun r hin => by
      have hne : r.id ≠ record.id := fun he => hout (he ▸ List.mem_map_of_mem hin)
      rw [honto, Function.update_of_ne hne]
      exact hr r (List.mem_cons_of_mem _ hin)
    refine ⟨hfits', honto'.trans ?_⟩
    funext q
    rw [honto, Function.update_apply, List.find?_cons]
    by_cases he : q = record.id
    · subst he
      simp [find?_id_eq_none.mpr hout]
    · simp [he, Ne.symm he]

/-- **Two deltas in one.** -/
theorem fits_merge (hd : d.Fits u) (hl : later.Fits (d.onto u)) :
    (d.merge later).Fits u ∧ (d.merge later).onto u = later.onto (d.onto u) := by
  obtain ⟨hfits, honto⟩ := fits_foldl_remove hd later.removed hl.removed_nodup hl.removed_shown
  obtain ⟨hfits', honto'⟩ := fits_foldl_add hfits later.added hl.added_nodup fun r hr => by
    rw [honto]
    rcases hl.added_missing r.id (List.mem_map_of_mem hr) with hnone | hin
    · simp [hnone]
    · simp [hin]
  refine ⟨hfits', honto'.trans ?_⟩
  rw [honto]
  rfl

end ResidencyDelta

end TileStream
