import TileStream.Proofs.Gpu.Renderer
import TileStream.Proofs.Holdings.Residency
import TileStream.Proofs.Pipeline.Consistency

/-! # A renderer mirrors the resident quads

A renderer that starts with nothing and is given the delta of every call in turn is never surprised by
one, and after every call it holds exactly the resident quads, each with the record that is cached
for it (`Pipeline.Run.mirror_exact`). A call has one delta for all that happens in it: it starts as
the delta of the view, if there is one, and takes in the delta of every quad that is finished. -/

namespace TileStream

namespace Renderer

/-- What is held after some deltas. -/
def applyAll (m : Renderer) (ds : List ResidencyDelta) : Renderer := ds.foldl apply m

/-- Some deltas are taken in turn, none with surprise. -/
def TakesAll : Renderer → List ResidencyDelta → Prop
  | _, [] => True
  | m, d :: ds => m.Takes d ∧ (m.apply d).TakesAll ds

theorem takesAll_concat {m : Renderer} {ds : List ResidencyDelta} {d : ResidencyDelta} :
    m.TakesAll (ds ++ [d]) ↔ m.TakesAll ds ∧ (m.applyAll ds).Takes d := by
  induction ds generalizing m with
  | nil => exact ⟨fun h => ⟨trivial, h.1⟩, fun h => ⟨h.2, trivial⟩⟩
  | cons d' ds ih =>
    rw [List.cons_append, TakesAll, TakesAll, ih, and_assoc]
    rfl

end Renderer

namespace Pipeline

variable {τ κ : Type} {p : Pipeline τ κ} {t : Turn τ κ} {tasks : List Task} {u : Shown}

open Holdings

/-- The deltas of the calls. -/
def deltas (past : List (Call κ × Turn τ κ)) : List ResidencyDelta :=
  past.map fun e => e.2.effects.delta

/-- A call begins with the delta of its view. -/
theorem tells_open {c : Call κ} (hh : p.holdings.Held) (ho : p.Opens c t tasks) :
    Tells p.holdings.shown t.effects.delta t.pipeline.holdings := by
  cases ho with
  | look hl =>
    obtain ⟨_, _, _, -, hv, rfl, -⟩ := hl
    exact tells_view hh hv
  | resume _ _ hl =>
    obtain ⟨_, _, _, -, hv, rfl, -⟩ := hl
    have hon : Held { p.holdings with online := true } := { hh with }
    exact tells_view hon hv
  | answer | poll => exact tells_empty hh
  | @heed online =>
    have hon : Held { p.holdings with online } := { hh with }
    exact tells_empty hon

variable [TokenArithmetic τ]

/-- **Every finished quad goes into the delta of the call.** -/
theorem tells_step {now : Instant} {w w' : Turn τ κ × List Task}
    (h : Tells u w.1.effects.delta w.1.pipeline.holdings) (hs : Turn.Step now w w') :
    Tells u w'.1.effects.delta w'.1.pipeline.holdings := by
  cases hs with
  | poll | start | startEmpty | startAgain | call | callEmpty | callAgain | pass | passLast
  | refuse => exact h
  | submit => rwa [Turn.pipeline_submit, Turn.effects_submit]
  | finish => rwa [Turn.pipeline_released, Turn.effects_released]
  | offer hr =>
    have hrec := tells_receive h.held hr
    have hfits := hrec.fits
    rw [← h.onto] at hfits
    obtain ⟨hmerge, honto⟩ := ResidencyDelta.fits_merge h.fits hfits
    exact ⟨hrec.held, hmerge, honto.trans (by rw [h.onto, hrec.onto])⟩

theorem tells_call {c : Call κ} (hh : p.holdings.Held) (hc : p.call c = .ok t) :
    Tells p.holdings.shown t.effects.delta t.pipeline.holdings := by
  obtain ⟨t₀, tasks, ho, hs⟩ := steps_call hc
  exact Turn.Steps.keeps (I := fun w => Tells p.holdings.shown w.1.effects.delta w.1.pipeline.holdings)
    tells_step hs (tells_open hh ho)

variable {s : StreamSettings} {culling : Culling κ} {coverage : Coverage} {start : Pipeline τ κ}
  {past : List (Call κ × Turn τ κ)}

/-- What the renderer holds is what the holdings show. -/
theorem Run.mirror (hs : ofSettings s culling coverage = .ok start) (h : start.Run past p) :
    p.holdings.Held ∧ Renderer.empty.TakesAll (deltas past) ∧
      (Renderer.empty.applyAll (deltas past)).quads.get? = p.holdings.shown := by
  -- on calls and not on steps: a delta is applied when its call is over
  induction h with
  | rest =>
    obtain ⟨-, rfl⟩ := eq_of_ofSettings hs
    refine ⟨⟨QuadCache.sound_ofCapacity _, Recency.sound_empty, fun q hq => (by cases hq)⟩,
      trivial, ?_⟩
    funext q
    rfl
  | @call past p c t _ hc ih =>
    obtain ⟨hheld, htakes, hget⟩ := ih
    have ht := tells_call hheld hc
    rw [← hget] at ht
    have hdeltas : deltas (past ++ [(c, t)]) = deltas past ++ [t.effects.delta] := List.map_append
    have happly : Renderer.empty.applyAll (deltas past ++ [t.effects.delta]) =
        (Renderer.empty.applyAll (deltas past)).apply t.effects.delta := List.foldl_append
    rw [hdeltas, Renderer.takesAll_concat, happly, Renderer.get?_apply ht.fits]
    exact ⟨ht.held, ⟨htakes, Renderer.takes_of_fits ht.fits⟩, ht.onto⟩

/-- A renderer that holds what the holdings show holds the resident quads. -/
theorem mirror_of_shown {h : Holdings} {m : Renderer} (hheld : h.Held)
    (hget : m.quads.get? = h.shown) : (∀ q, q ∈ m.quads.keys ↔ q ∈ h.residents.ids) ∧
      ∀ q ∈ h.residents.ids, ∃ record,
        m.quads.get? q = some record ∧ h.cache.get? q = some record := by
  have hids : ∀ q, q ∈ h.residents.ids ↔ h.residents.contains q = true := fun q => Table.mem_keys _
  refine ⟨fun q => ?_, fun q hq => ?_⟩
  · rw [hids, Table.mem_keys, Table.contains_iff, hget]
    rw [← Option.ne_none_iff_exists', Ne, shown_eq_none hheld, Bool.not_eq_false]
  · rw [hids] at hq
    obtain ⟨record, hr⟩ := QuadCache.contains_iff.mp (hheld.cached q hq)
    exact ⟨record, by rw [hget, shown, if_pos hq, hr], hr⟩

/-- **A renderer mirrors the resident quads.** It finds each quad that it is to remove and none that
it is to add, and after every run it holds the resident quads with their cached records. -/
theorem Run.mirror_exact (hs : ofSettings s culling coverage = .ok start) (h : start.Run past p) :
    Renderer.empty.TakesAll (deltas past) ∧
    (∀ q, q ∈ (Renderer.empty.applyAll (deltas past)).quads.keys ↔ q ∈ p.holdings.residents.ids) ∧
    ∀ q ∈ p.holdings.residents.ids, ∃ record,
      (Renderer.empty.applyAll (deltas past)).quads.get? q = some record ∧
        p.holdings.cache.get? q = some record := by
  obtain ⟨hheld, htakes, hget⟩ := h.mirror hs
  exact ⟨htakes, mirror_of_shown hheld hget⟩

/-- Two quads are added, and then a third one takes the place of the first. -/
theorem Run.mirror_exact_eviction : ∃ past p, roomy.Run past p ∧
    past.map (·.1) = rootAndQuarter ++ [rootAway] ∧
    (deltas past).flatMap (·.addedIds) = [⟨0, 0, 0⟩, ⟨1, 0, 0⟩, ⟨1, 1, 0⟩] ∧
    (∃ d ∈ deltas past, d.removed = [⟨0, 0, 0⟩]) ∧ Renderer.empty.TakesAll (deltas past) ∧
    (∀ q, q ∈ (Renderer.empty.applyAll (deltas past)).quads.keys ↔ q = ⟨1, 1, 0⟩ ∨ q = ⟨1, 0, 0⟩) ∧
    ∃ record, (Renderer.empty.applyAll (deltas past)).quads.get? ⟨1, 0, 0⟩ = some record ∧
      p.holdings.cache.get? ⟨1, 0, 0⟩ = some record := by
  obtain ⟨past, p, t, hrun, hcalls, hc, hadded, -, hremoved, hadds, -, hids⟩ := exists_rootAway
  obtain ⟨htakes, hkeys, hrecords⟩ := Run.mirror_exact ofSettings_roomy (hrun.call hc)
  rw [hids] at hkeys hrecords
  refine ⟨_, _, hrun.call hc, ?_, ?_, ⟨_, ?_, hremoved⟩, htakes, fun q => ?_, hrecords _ (by decide)⟩
  · rw [List.map_append, hcalls]
    rfl
  · rw [deltas, List.flatMap_map, List.flatMap_append, hadded, List.flatMap_singleton, hadds]
    rfl
  · exact List.mem_map_of_mem (List.mem_append_right _ (List.mem_singleton_self _))
  · rw [hkeys, List.mem_cons, List.mem_singleton]

end Pipeline

end TileStream
