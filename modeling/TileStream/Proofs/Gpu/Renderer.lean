import TileStream.Gpu.Renderer
import TileStream.Proofs.Gpu.Delta
import TileStream.Proofs.Table

/-! # A renderer that is given deltas that fit

A renderer removes and adds one quad after the other. `Renderer.Takes` says that it finds every quad
that it is to remove and none that it is to add. That is so for a delta that fits what the renderer
holds, and then it holds what the delta comes to (`Renderer.get?_apply`). So two deltas that fit one
after the other may be sent as one (`Renderer.apply_merge`). -/

namespace TileStream

namespace Renderer

variable {m : Renderer} {t : Table QuadId QuadRecord} {d : ResidencyDelta}

/-- Each quad is there when its turn comes to be removed. -/
def RemovesHeld : Table QuadId QuadRecord → List QuadId → Prop
  | _, [] => True
  | t, quad :: rest => t.contains quad = true ∧ RemovesHeld (t.erase quad) rest

/-- Each quad is not there when its turn comes to be added. -/
def AddsMissing : Table QuadId QuadRecord → List QuadRecord → Prop
  | _, [] => True
  | t, record :: rest => t.contains record.id = false ∧ AddsMissing (t.set record.id record) rest

/-- **A delta is taken without surprise.** -/
def Takes (m : Renderer) (d : ResidencyDelta) : Prop :=
  RemovesHeld m.quads d.removed ∧ AddsMissing (d.removed.foldl Table.erase m.quads) d.added

theorem removesHeld_of_nodup {quads : List QuadId} (hn : quads.Nodup)
    (h : ∀ q ∈ quads, t.contains q = true) : RemovesHeld t quads := by
  induction quads generalizing t with
  | nil => trivial
  | cons quad rest ih =>
    obtain ⟨hout, hn⟩ := List.nodup_cons.mp hn
    refine ⟨h quad List.mem_cons_self, ih hn fun q hq => ?_⟩
    have hne : q ≠ quad := fun he => hout (he ▸ hq)
    simp [hne, h q (List.mem_cons_of_mem _ hq)]

theorem addsMissing_of_nodup {records : List QuadRecord} (hn : (records.map (·.id)).Nodup)
    (h : ∀ r ∈ records, t.contains r.id = false) : AddsMissing t records := by
  induction records generalizing t with
  | nil => trivial
  | cons record rest ih =>
    rw [List.map_cons] at hn
    obtain ⟨hout, hn⟩ := List.nodup_cons.mp hn
    refine ⟨h record List.mem_cons_self, ih hn fun r hr => ?_⟩
    have hne : r.id ≠ record.id := fun he => hout (he ▸ List.mem_map_of_mem hr)
    simp [hne, h r (List.mem_cons_of_mem _ hr)]

/-- **A delta that fits is taken.** -/
theorem takes_of_fits (h : d.Fits m.quads.get?) : m.Takes d := by
  refine ⟨removesHeld_of_nodup h.removed_nodup fun q hq => ?_,
    addsMissing_of_nodup h.added_nodup fun r hr => ?_⟩
  · rw [Table.contains_iff]
    exact Option.ne_none_iff_exists'.mp (h.removed_shown q hq)
  · rw [Table.contains_eq_false_iff, Table.get?_foldl_erase]
    rcases h.added_missing r.id (List.mem_map_of_mem hr) with hnone | hin
    · rw [hnone, ite_self]
    · rw [if_pos hin]

theorem get?_foldl_set (records : List QuadRecord) (hn : (records.map (·.id)).Nodup) (q : QuadId) :
    (records.foldl (fun t r => t.set r.id r) t).get? q =
      (records.find? fun r => r.id = q).or (t.get? q) := by
  induction records generalizing t with
  | nil => simp
  | cons record rest ih =>
    rw [List.map_cons] at hn
    obtain ⟨hout, hn⟩ := List.nodup_cons.mp hn
    rw [List.foldl_cons, ih hn, Table.get?_set, List.find?_cons]
    by_cases he : q = record.id
    · subst he
      simp [ResidencyDelta.find?_id_eq_none.mpr hout]
    · simp [he, Ne.symm he]

/-- **After a delta that fits, a renderer holds what the delta comes to.** -/
theorem get?_apply (h : d.Fits m.quads.get?) : (m.apply d).quads.get? = d.onto m.quads.get? := by
  funext q
  show (d.added.foldl (fun t r => t.set r.id r) (d.removed.foldl Table.erase m.quads)).get? q = _
  rw [get?_foldl_set _ h.added_nodup, Table.get?_foldl_erase]
  rfl

/-- **Two deltas may be sent as one.** Let a delta fit what a renderer holds and a later one what the
renderer holds then. The two folded into one fit what it holds at first, and it comes to hold the same
record of every quad as when it is given one after the other. -/
theorem apply_merge {later : ResidencyDelta} (hd : d.Fits m.quads.get?)
    (hl : later.Fits (m.apply d).quads.get?) :
    (d.merge later).Fits m.quads.get? ∧
      ∀ quad, (m.apply (d.merge later)).quads.get? quad = ((m.apply d).apply later).quads.get? quad := by
  have honto := get?_apply hd
  have htwice := get?_apply hl
  rw [honto] at hl htwice
  obtain ⟨hfits, hmerge⟩ := ResidencyDelta.fits_merge hd hl
  refine ⟨hfits, fun quad => ?_⟩
  rw [get?_apply hfits, htwice, hmerge]

/-- A quad that is replaced twice, and one that comes and goes. -/
theorem apply_merge_replaced :
    let first : QuadRecord := ⟨⟨1, 0, 0⟩, []⟩
    let second : QuadRecord := ⟨⟨1, 0, 0⟩, [⟨⟨2, 0, 0⟩, .empty⟩]⟩
    let third : QuadRecord := ⟨⟨1, 0, 0⟩, [⟨⟨2, 1, 0⟩, .empty⟩]⟩
    let passing : QuadRecord := ⟨⟨1, 1, 0⟩, []⟩
    let m : Renderer := empty.apply ⟨[], [first]⟩
    let d : ResidencyDelta := ⟨[first.id], [second, passing]⟩
    let later : ResidencyDelta := ⟨[first.id, passing.id], [third]⟩
    d.Fits m.quads.get? ∧ later.Fits (m.apply d).quads.get? ∧
      d.merge later = ⟨[first.id], [third]⟩ ∧ (d.merge later).Fits m.quads.get? ∧
      ∀ quad, (m.apply (d.merge later)).quads.get? quad =
        ((m.apply d).apply later).quads.get? quad := by
  intro first second third passing m d later
  have hd : d.Fits m.quads.get? := ⟨by decide, by decide, by decide, by decide⟩
  have hl : later.Fits (m.apply d).quads.get? := ⟨by decide, by decide, by decide, by decide⟩
  exact ⟨hd, hl, by decide, apply_merge hd hl⟩

end Renderer

end TileStream
