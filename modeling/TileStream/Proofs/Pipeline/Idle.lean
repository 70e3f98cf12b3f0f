import TileStream.Proofs.Pipeline.Consistency

/-! # When nothing is under way

A pipeline is idle when no quad holds a slot, waits for one, or is being loaded. For this it is enough
that no fetch is out and that no quad waits for a token (`Pipeline.Run.idle_iff`): a quad that is being
loaded waits for a tile, a tile that is being loaded waits for a layer, and quads wait for a slot only
while every slot is held. So no slot is lost and no quad is left in the queue, whatever was delivered,
refused or pruned before.

A tile could be stuck only if it waited for a layer that nobody can fetch. Sets of layers may have bits
that stand for no layer, and settings with such a set are left out. -/

namespace TileStream

namespace Pipeline

variable {τ κ : Type} {p : Pipeline τ κ} {t : Turn τ κ} {tasks : List Task}

/-- **No quad is under way.** -/
structure Idle (p : Pipeline τ κ) : Prop where
  assembling : p.quads.loading = 0
  inFlight : p.slots.inFlight = 0
  queue : p.slots.queue = []
  unknown : ∀ q, p.slots.contains q = false

/-- Without tiles under way and quads in line, nothing is under way. -/
theorem Agrees.idle_of_none (h : p.Agrees []) (hlimit : 0 < p.slots.limit)
    (htiles : p.tiles.loading = 0) (hline : p.bucket.size = 0) : p.Idle := by
  have hc := h.consistent
  have hquads : p.quads.loading = 0 := by
    refine p.quads.pending.size_eq_zero_iff.mpr fun q => ?_
    rw [← Bool.not_eq_true]
    intro hload
    obtain ⟨tile, -, hawaits⟩ := QuadJoins.exists_awaits h.quads hload
    have hloading : p.tiles.isLoading tile = true :=
      (h.loading tile).mpr ⟨hawaits, List.not_mem_nil⟩
    rw [show p.tiles.isLoading tile = false from p.tiles.pending.size_eq_zero_iff.mp htiles tile]
      at hloading
    cases hloading
  have hheld : p.slots.inFlight = 0 := by rw [hc.inFlight, hline, hquads]
  have hqueue : p.slots.queue = [] := by
    by_contra hne
    have hfull := h.slots.full hne
    omega
  refine ⟨hquads, hheld, hqueue, fun q => ?_⟩
  rw [← Bool.not_eq_true, hc.known, hqueue, List.length_eq_zero_iff.mp hline, Table.mem_keys,
    p.quads.pending.size_eq_zero_iff.mp hquads q]
  simp

/-- In an idle pipeline no tile is under way, and no quad is in line. -/
theorem Agrees.none_of_idle (h : p.Agrees []) (hi : p.Idle) :
    p.tiles.loading = 0 ∧ p.bucket.size = 0 := by
  have hc := h.consistent
  constructor
  · refine p.tiles.pending.size_eq_zero_iff.mpr fun tile => ?_
    rw [← Bool.not_eq_true]
    intro hload
    obtain ⟨⟨q, j, _, hj, -⟩, -⟩ := (h.loading tile).mp hload
    have hquad : p.quads.pending.contains q = true := p.quads.pending.contains_iff.mpr ⟨j, hj⟩
    rw [p.quads.pending.size_eq_zero_iff.mp hi.assembling q] at hquad
    cases hquad
  · refine List.length_eq_zero_iff.mpr (List.eq_nil_iff_forall_not_mem.mpr fun q hq => ?_)
    have hknown := (hc.known q).mpr (.inr (.inl hq))
    rw [hi.unknown q] at hknown
    cases hknown

/-! ### Fetches and tiles -/

theorem live_open {c : Call κ} (h : p.tiles.Live) (ho : p.Opens c t tasks) :
    t.pipeline.tiles.Live := by
  cases ho with
  | look hl | resume _ _ hl =>
    obtain ⟨_, _, _, _, _, rfl, _⟩ := hl
    exact h
  | @answer tile layer outcome _ _ _ hd =>
    have hlive := h.deliver tile layer outcome
    rwa [hd] at hlive
  | poll | heed => exact h

variable [TokenArithmetic τ]

theorem live_step {now : Instant} {w w' : Turn τ κ × List Task} (h : w.1.pipeline.tiles.Live)
    (hs : Turn.Step now w w') : w'.1.pipeline.tiles.Live := by
  cases hs with
  | poll | start | startEmpty | startAgain | pass | passLast | offer | refuse => exact h
  | submit => rwa [Turn.pipeline_submit]
  | finish => rwa [Turn.pipeline_released]
  | @call t tile _ _ _ hl | @callEmpty t tile _ _ _ hl | @callAgain t tile _ _ hl =>
    have hlive := h.load tile
    rwa [hl] at hlive

variable {s : StreamSettings} {culling : Culling κ} {coverage : Coverage} {start : Pipeline τ κ}
  {past : List (Call κ × Turn τ κ)}

theorem Run.live (hs : ofSettings s culling coverage = .ok start) (hk : s.enabledLayers.Known)
    (h : start.Run past p) : p.tiles.Live := by
  refine h.keeps (I := fun p _ => p.tiles.Live) ?_ ?_ ?_
  · obtain ⟨-, rfl⟩ := eq_of_ofSettings hs
    exact TileJoins.live_ofLayers hk
  · exact fun hi ho => live_open hi ho
  · exact fun hi hstep => live_step hi hstep

/-- **A pipeline is idle as soon as no fetch is out and no quad waits for a token.** With layers that
can be fetched, no fetch is out just when no tile is being loaded. -/
theorem Run.idle_iff (hs : ofSettings s culling coverage = .ok start)
    (hk : s.enabledLayers.Known) (h : start.Run past p) :
    ((∀ f, ¬ p.tiles.Awaits f) ↔ p.tiles.loading = 0) ∧
      (p.Idle ↔ p.tiles.loading = 0 ∧ p.bucket.size = 0) := by
  obtain ⟨ha, halike, -⟩ := h.agrees hs
  have hlive := h.live hs hk
  have hlimit : 0 < p.slots.limit := by
    rw [halike.limit, (eq_of_ofSettings hs).2]
    exact Nat.lt_of_lt_of_le Nat.one_pos (Nat.le_max_right _ _)
  refine ⟨⟨fun hnone => ?_, fun hzero f hawaits => ?_⟩, ha.none_of_idle, ?_⟩
  · refine p.tiles.pending.size_eq_zero_iff.mpr fun tile => ?_
    rw [← Bool.not_eq_true]
    intro hload
    obtain ⟨layer, hawaits⟩ := hlive.exists_awaits hload
    exact hnone _ hawaits
  · have hload := TileJoins.isLoading_of_awaits hawaits
    rw [show p.tiles.isLoading f.tile = false from p.tiles.pending.size_eq_zero_iff.mp hzero f.tile]
      at hload
    cases hload
  · exact fun ⟨htiles, hline⟩ => ha.idle_of_none hlimit htiles hline

/-- While the answers for the root come in its fetches are out, and once they all came nothing is under
way. -/
theorem Run.idle_iff_answered : roomForTwo.enabledLayers.Known ∧
    (∃ past p, roomy.Run past p ∧ past.map (·.1) = rootAndQuarter.take 4 ∧ ¬ p.Idle ∧
      ∃ f, p.tiles.Awaits f) ∧
    ∃ past p, roomy.Run past p ∧ past.map (·.1) = rootAndQuarter ∧ p.Idle ∧
      ∀ f, ¬ p.tiles.Awaits f := by
  have hk : roomForTwo.enabledLayers.Known := by decide
  have hbusy : (roomy.replay (rootAndQuarter.take 4)).map (·.2.tiles.loading) = .ok 3 := by
    decide +kernel
  have hdone : (roomy.replay rootAndQuarter).map (fun r => (r.2.tiles.loading, r.2.bucket.size)) =
      .ok (0, 0) := by decide +kernel
  refine ⟨hk, ?_, ?_⟩
  · obtain ⟨past, p, hrun, hcalls, hthree⟩ := exists_run_of_replay hbusy
    obtain ⟨hnone, hidle⟩ := Run.idle_iff ofSettings_roomy hk hrun
    have hloading : p.tiles.loading ≠ 0 := ne_of_eq_of_ne hthree (by decide)
    exact ⟨past, p, hrun, hcalls, fun h => hloading (hidle.mp h).1,
      by_contra fun hall => hloading (hnone.mp (not_exists.mp hall))⟩
  · obtain ⟨past, p, hrun, hcalls, hzero⟩ := exists_run_of_replay hdone
    obtain ⟨htiles, hline⟩ := Prod.mk.inj hzero
    obtain ⟨hnone, hidle⟩ := Run.idle_iff ofSettings_roomy hk hrun
    exact ⟨past, p, hrun, hcalls, hidle.mpr ⟨htiles, hline⟩, hnone.mpr htiles⟩

end Pipeline

end TileStream
