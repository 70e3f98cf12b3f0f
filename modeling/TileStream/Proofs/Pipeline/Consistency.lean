import TileStream.Proofs.Pipeline.Agreement

/-! # The pipeline between two calls

Between two calls no task is left, and the stages account for the same quads and tiles
(`Pipeline.Consistent`). Every pipeline that a run leads to is consistent, no more slots are held than
the settings allow, and no quad or tile was ever ordered while it was being loaded already
(`Pipeline.Run.stages_agree`). A call is answered just when what it looks at can be seen
(`Pipeline.call_ok_iff`). -/

namespace TileStream

namespace Pipeline

variable {τ κ : Type} {p : Pipeline τ κ}

/-- **The stages account for the same quads and tiles.** The quads known to the slots are split into
the queue, the line of the token bucket and the quads being loaded, as their stages say. -/
structure Consistent (p : Pipeline τ κ) : Prop where
  queued : ∀ q, p.slots.stage? q = some .queued ↔ q ∈ p.slots.queue
  rateLimited : ∀ q, p.slots.stage? q = some .rateLimited ↔ q ∈ p.bucket.pending
  assembling : ∀ q, p.slots.stage? q = some .assembling ↔ q ∈ p.quads.pending.keys
  known : ∀ q, p.slots.contains q = true ↔
    q ∈ p.slots.queue ∨ q ∈ p.bucket.pending ∨ q ∈ p.quads.pending.keys
  nodup : (p.slots.queue ++ (p.bucket.pending ++ p.quads.pending.keys)).Nodup
  inFlight : p.slots.inFlight = p.bucket.size + p.quads.loading
  /-- Every quad being loaded has children. -/
  children : ∀ q ∈ p.quads.pending.keys, ∃ tiles, p.quads.coverage.children q = .ok tiles
  /-- The tiles being loaded are the children of the quads being loaded that were not handed to
  them yet. -/
  loading : ∀ t, t ∈ p.tiles.pending.keys ↔ ∃ q j tiles, p.quads.pending.get? q = some j ∧
    p.quads.coverage.children q = .ok tiles ∧ t ∈ tiles ∧ ∀ r ∈ j.tiles, r.id ≠ t

/-- Lists that belong to different stages do not overlap. -/
theorem nodup_append_of_stage {s : Slots} {l l' : List QuadId} {stage : Stage}
    (stages : List Stage) (hl : l.Nodup) (hl' : l'.Nodup) (h : ∀ q ∈ l, s.stage? q = some stage)
    (h' : ∀ q ∈ l', ∃ stage' ∈ stages, s.stage? q = some stage') (hout : stage ∉ stages) :
    (l ++ l').Nodup := by
  refine List.nodup_append.mpr ⟨hl, hl', ?_⟩
  rintro q hq q' hq' rfl
  obtain ⟨stage', hmem, hst⟩ := h' q hq'
  rw [h q hq, Option.some.injEq] at hst
  exact hout (hst ▸ hmem)

theorem Agrees.consistent (h : p.Agrees []) : p.Consistent := by
  have hline : p.slots.Lines p.bucket.pending := h.line
  have hassembling : ∀ q, p.slots.stage? q = some .assembling ↔ q ∈ p.quads.pending.keys := by
    intro q
    rw [h.assembling, p.quads.pending.mem_keys]
    simp [QuadJoins.isLoading]
  -- the quads that hold a slot are those in the line and those being loaded
  have hheld : (p.bucket.pending ++ p.quads.pending.keys).Nodup :=
    nodup_append_of_stage [.assembling] hline.nodup p.quads.pending.distinct
      (fun q hq => (hline.mem q).mp hq)
      (fun q hq => ⟨_, List.mem_singleton_self _, (hassembling q).mpr hq⟩) (by simp)
  refine
    { queued := fun q => (h.slots.mem_queue q).symm
      rateLimited := fun q => (hline.mem q).symm
      assembling := hassembling
      known := fun q => ?_
      nodup := ?_
      inFlight := ?_
      children := fun q hq => ?_
      loading := fun t => ?_ }
  · rw [h.slots.mem_queue, hline.mem, ← hassembling, Slots.contains_iff]
    constructor
    · rintro ⟨stage, hst⟩
      cases stage <;> simp [hst]
    · rintro (hst | hst | hst) <;> exact ⟨_, hst⟩
  · refine nodup_append_of_stage [.rateLimited, .assembling] h.slots.queue_nodup hheld
      (fun q hq => (h.slots.mem_queue q).mp hq) (fun q hq => ?_) (by simp)
    rcases List.mem_append.mp hq with hq | hq
    · exact ⟨_, by simp, (hline.mem q).mp hq⟩
    · exact ⟨_, by simp, (hassembling q).mpr hq⟩
  · rw [h.slots.counted, p.slots.stages.countP_values_eq_length hheld, List.length_append,
      Table.length_keys]
    · rfl
    · intro q
      rw [List.mem_append, hline.mem, ← hassembling]
      constructor
      · rintro (hst | hst) <;> exact ⟨_, hst, rfl⟩
      · rintro ⟨stage, hst, hslot⟩
        cases stage with
        | queued => cases hslot
        | rateLimited => exact .inl hst
        | assembling => exact .inr hst
  · obtain ⟨j, hj⟩ := p.quads.pending.contains_iff.mp (p.quads.pending.mem_keys.mp hq)
    exact ⟨_, Coverage.children_eq (h.quads q j hj).isQuad⟩
  · rw [p.tiles.pending.mem_keys]
    exact (h.loading t).trans (and_iff_left List.not_mem_nil)

/-! ### What never changes -/

/-- Two states of a pipeline that was set up once. -/
structure Alike (p p' : Pipeline τ κ) : Prop where
  culling : p'.culling = p.culling
  limit : p'.slots.limit = p.slots.limit
  coverage : p'.quads.coverage = p.quads.coverage
  layers : p'.tiles.layers = p.tiles.layers

theorem Alike.refl (p : Pipeline τ κ) : p.Alike p := ⟨rfl, rfl, rfl, rfl⟩

theorem Alike.trans {p' p'' : Pipeline τ κ} (h : p.Alike p') (h' : p'.Alike p'') : p.Alike p'' :=
  ⟨h'.culling.trans h.culling, h'.limit.trans h.limit, h'.coverage.trans h.coverage,
    h'.layers.trans h.layers⟩

theorem alike_open {c : Call κ} {t : Turn τ κ} {tasks : List Task} (ho : p.Opens c t tasks) :
    p.Alike t.pipeline := by
  cases ho with
  | look hl | resume _ _ hl =>
    obtain ⟨_, _, _, _, _, rfl, _⟩ := hl
    exact ⟨rfl, rfl, rfl, rfl⟩
  | @answer tile layer outcome _ _ _ hd =>
    have hlayers := TileJoins.layers_deliver p.tiles tile layer outcome
    rw [hd] at hlayers
    exact ⟨rfl, rfl, rfl, hlayers⟩
  | poll | heed => exact ⟨rfl, rfl, rfl, rfl⟩

theorem quiet_open {c : Call κ} {t : Turn τ κ} {tasks : List Task} (ho : p.Opens c t tasks) :
    t.Quiet := by
  cases ho with
  | look hl | resume _ _ hl =>
    obtain ⟨_, _, _, _, _, rfl, _⟩ := hl
    intro n hn
    obtain ⟨q, -, rfl⟩ := List.mem_map.mp hn
    rfl
  | answer | poll | heed => exact fun n hn => by cases hn

variable [TokenArithmetic τ]

theorem alike_step {now : Instant} {w w' : Turn τ κ × List Task} (hs : Turn.Step now w w') :
    w.1.pipeline.Alike w'.1.pipeline := by
  cases hs with
  | poll | offer | refuse => exact ⟨rfl, rfl, rfl, rfl⟩
  | submit =>
    rw [Turn.pipeline_submit]
    exact ⟨rfl, Slots.limit_request _ _, rfl, rfl⟩
  | start hl | startEmpty hl | startAgain hl =>
    exact ⟨rfl, Slots.limit_mark _ _ _, QuadJoins.coverage_load hl, rfl⟩
  | @call t tile _ _ _ hl | @callEmpty t tile _ _ _ hl | @callAgain t tile _ _ hl =>
    have hlayers := t.pipeline.tiles.layers_load tile
    rw [hl] at hlayers
    exact ⟨rfl, rfl, rfl, hlayers⟩
  | @pass t record _ _ hd | @passLast t record _ _ _ hd =>
    have hcoverage := t.pipeline.quads.coverage_deliver record
    rw [hd] at hcoverage
    exact ⟨rfl, rfl, hcoverage, rfl⟩
  | finish hr =>
    rw [Turn.pipeline_released]
    exact ⟨rfl, Slots.limit_release hr, rfl, rfl⟩

/-! ### Calls -/

/-- In agreement there is always a way on. -/
theorem exists_step (now : Instant) {w : Turn τ κ × List Task} (h : w.1.pipeline.Agrees w.2) :
    ∃ w', Turn.Step now w w' := by
  obtain ⟨t, tasks⟩ := w
  cases tasks with
  | nil => exact ⟨_, .poll rfl⟩
  | cons task tasks =>
    cases task with
    | submit quad => exact ⟨_, .submit⟩
    | start quad =>
      obtain ⟨hquad, hidle, -⟩ := h.load
      obtain ⟨tiles, -, hload⟩ := QuadJoins.load_eq hquad hidle
      split at hload
      · exact ⟨_, .startEmpty hload⟩
      · exact ⟨_, .start hload⟩
    | call tile =>
      rcases t.pipeline.tiles.load_cases tile with ⟨-, hl⟩ | ⟨-, hl⟩ | ⟨-, hl⟩
      · exact ⟨_, .callAgain hl⟩
      · exact ⟨_, .callEmpty hl⟩
      · exact ⟨_, .call hl⟩
    | pass record =>
      obtain ⟨_, _, finished, -, -, hd, -⟩ :=
        QuadJoins.deliver_of_awaits h.quads (h.handled record.id List.mem_cons_self)
      cases finished with
      | none => exact ⟨_, .pass hd⟩
      | some quad => exact ⟨_, .passLast hd⟩
    | finish record =>
      have hstage := (h.assembling record.id).mpr (.inr List.mem_cons_self)
      obtain ⟨hr, -⟩ := Slots.release_eq h.slots (Slots.holds_iff.mpr (.inr hstage))
      exact ⟨_, .finish hr⟩
    | offer record =>
      cases hr : t.pipeline.holdings.receive record now with
      | error e => exact ⟨_, .refuse hr⟩
      | ok r => exact ⟨_, .offer hr⟩

/-- What comes of tasks in agreement is no fault. -/
theorem ok_of_comes {now : Instant} {w : Turn τ κ × List Task} {rest : List Task}
    {r : Checked (Turn τ κ)} (h : w.1.pipeline.Agrees w.2) (hc : Turn.Comes now w rest r) :
    ∃ t, r = .ok t := by
  cases r with
  | ok t => exact ⟨t, rfl⟩
  | error e =>
    obtain ⟨w', hw, hstuck⟩ := hc
    have hend : w'.1.pipeline.Agrees w'.2 :=
      Turn.Steps.keeps (I := fun w => w.1.pipeline.Agrees w.2) agrees_step hw h
    obtain ⟨w'', hs⟩ := exists_step now hend
    exact absurd hs (hstuck w'')

/-- **A call that can begin is answered.** -/
theorem call_ok {c : Call κ} {t : Turn τ κ} {tasks : List Task} (h : p.Agrees [])
    (ho : p.Opens c t tasks) : ∃ t', p.call c = .ok t' :=
  ok_of_comes (agrees_open h ho) (comes_call ho)

/-- **A call is answered just when what it looks at can be seen.** -/
theorem call_ok_iff {c : Call κ} (h : p.Agrees []) :
    (∃ t, p.call c = .ok t) ↔ ∀ camera, p.looksAt? c = some camera → p.Sees camera := by
  constructor
  · rintro ⟨t, ht⟩ camera hcam
    exact sees_of_call ht hcam
  · intro hsee
    obtain ⟨t, tasks, ho⟩ := opens_of_sees hsee
    exact call_ok h ho

/-- What a call keeps, and what it does not do. -/
theorem agrees_call {c : Call κ} {t : Turn τ κ} (h : p.Agrees []) (hc : p.call c = .ok t) :
    t.pipeline.Agrees [] ∧ p.Alike t.pipeline ∧ t.Quiet := by
  obtain ⟨t₀, tasks, ho, hs⟩ := steps_call hc
  refine Turn.Steps.keeps (I := fun w => w.1.pipeline.Agrees w.2 ∧
    p.Alike w.1.pipeline ∧ w.1.Quiet) ?_ hs ⟨agrees_open h ho, alike_open ho, quiet_open ho⟩
  rintro w w' ⟨ha, hl, hq⟩ hstep
  exact ⟨agrees_step ha hstep, hl.trans (alike_step hstep), quiet_step ha hstep hq⟩

/-! ### Runs -/

variable {s : StreamSettings} {culling : Culling κ} {coverage : Coverage} {start : Pipeline τ κ}
  {past : List (Call κ × Turn τ κ)}

theorem Run.agrees (hs : ofSettings s culling coverage = .ok start) (h : start.Run past p) :
    p.Agrees [] ∧ start.Alike p ∧ ∀ e ∈ past, e.2.Quiet := by
  induction h with
  | rest => exact ⟨agrees_ofSettings hs, .refl _, fun e he => by cases he⟩
  | call _ hc ih =>
    obtain ⟨ha, hl, hq⟩ := ih
    obtain ⟨ha', hl', hq'⟩ := agrees_call ha hc
    exact ⟨ha', hl.trans hl', List.forall_mem_append.mpr ⟨hq, List.forall_mem_singleton.mpr hq'⟩⟩

/-- **After every run the stages account for the same quads and tiles,** no more slots are held than
the settings allow, and nothing was ever ordered while it was being loaded already. The next call is
answered just when what it looks at can be seen. -/
theorem Run.stages_agree (hs : ofSettings s culling coverage = .ok start) (h : start.Run past p) :
    p.Consistent ∧ p.slots.inFlight ≤ s.maxConcurrentQuads ∧ p.culling = culling ∧
      p.quads.coverage = { coverage with maxZoom := min coverage.maxZoom s.maxZoom } ∧
      (∀ e ∈ past, ∀ n ∈ e.2.journal, (∀ q, n ≠ .startedAgain q) ∧ ∀ t, n ≠ .calledAgain t) ∧
      ∀ c : Call κ, (∃ t, p.call c = .ok t) ↔
        ∀ camera, p.looksAt? c = some camera → p.Sees camera := by
  obtain ⟨ha, hl, hq⟩ := h.agrees hs
  obtain ⟨hvalid, rfl⟩ := eq_of_ofSettings hs
  refine ⟨ha.consistent, ?_, hl.culling, hl.coverage, fun e he n hn => ?_, fun c => call_ok_iff ha⟩
  · have hpos := (StreamSettings.pos_of_validate hvalid).2.2
    have hlimit : p.slots.limit = max s.maxConcurrentQuads 1 := hl.limit
    have hbound := ha.slots.bounded
    omega
  · have hn := hq e he n hn
    refine ⟨fun q hq => ?_, fun t ht => ?_⟩
    · rw [hq] at hn; cases hn
    · rw [ht] at hn; cases hn

/-! ### A short run -/

/-- A pipeline of the standard settings. Its cameras are the tiles that they need. -/
def sample : Pipeline Rat (List TileId) := atRest .standard .ok (.ofDepth 4)

theorem ofSettings_sample : ofSettings .standard .ok (.ofDepth 4) = .ok sample := rfl

/-- A look at one tile, an outcome that was asked for, one that was not, and the network lost. -/
def fewCalls : List (Call (List TileId)) :=
  [.updateCamera [⟨1, 0, 0⟩] ⟨0⟩, .deliver ⟨1, 0, 0⟩ .height (.ok [7]) ⟨5⟩,
    .deliver ⟨9, 3, 3⟩ .ortho (.ok []) ⟨2⟩, .setOnline false ⟨6⟩]

theorem exists_run : ∃ past p, sample.Run past p ∧ past.map (·.1) = fewCalls := by
  have h₀ := agrees_ofSettings ofSettings_sample
  obtain ⟨t₁, h₁⟩ := call_ok (c := .updateCamera [⟨1, 0, 0⟩] ⟨0⟩) h₀
    (.look ⟨_, _, _, rfl, rfl, rfl, rfl⟩)
  have ha₁ := (agrees_call h₀ h₁).1
  obtain ⟨t₂, h₂⟩ := call_ok (c := .deliver ⟨1, 0, 0⟩ .height (.ok [7]) ⟨5⟩) ha₁ (.answer rfl)
  have ha₂ := (agrees_call ha₁ h₂).1
  obtain ⟨t₃, h₃⟩ := call_ok (c := .deliver ⟨9, 3, 3⟩ .ortho (.ok []) ⟨2⟩) ha₂ (.answer rfl)
  have ha₃ := (agrees_call ha₂ h₃).1
  obtain ⟨t₄, h₄⟩ := call_ok (c := .setOnline false ⟨6⟩) ha₃ (.heed fun h => by cases h)
  exact ⟨_, _, (((Run.rest.call h₁).call h₂).call h₃).call h₄, rfl⟩

theorem Run.stages_agree_few_calls : ∃ past p, sample.Run past p ∧ past.map (·.1) = fewCalls ∧
    p.Consistent ∧ p.slots.inFlight ≤ 16 := by
  obtain ⟨past, p, hrun, hcalls⟩ := exists_run
  obtain ⟨hc, hle, -⟩ := Run.stages_agree ofSettings_sample hrun
  exact ⟨past, p, hrun, hcalls, hc, hle⟩

/-! ### A run that fills a pipeline -/

/-- There is room for two quads. -/
def roomForTwo : StreamSettings :=
  { StreamSettings.standard with ramQuadLimit := 2, gpuQuadLimit := 2 }

/-- A pipeline of these settings, over two levels of tiles. -/
def roomy : Pipeline Rat (List TileId) := atRest roomForTwo .ok (.ofDepth 1)

theorem ofSettings_roomy : ofSettings roomForTwo .ok (.ofDepth 1) = .ok roomy := rfl

/-- A look at the root, the answers to its fetches, and a look at an empty quad. -/
def rootAndQuarter : List (Call (List TileId)) :=
  [.updateCamera [⟨1, 0, 0⟩] ⟨0⟩, .deliver ⟨1, 0, 0⟩ .height (.ok [1]) ⟨1⟩,
    .deliver ⟨1, 0, 0⟩ .ortho (.ok [2]) ⟨2⟩, .deliver ⟨1, 1, 0⟩ .height (.error .notFound) ⟨3⟩,
    .deliver ⟨1, 1, 0⟩ .ortho (.ok [3]) ⟨4⟩, .deliver ⟨1, 0, 1⟩ .height (.ok [4]) ⟨5⟩,
    .deliver ⟨1, 0, 1⟩ .ortho (.ok [5]) ⟨6⟩, .deliver ⟨1, 1, 1⟩ .height (.ok [6]) ⟨7⟩,
    .deliver ⟨1, 1, 1⟩ .ortho (.ok [7]) ⟨8⟩, .updateCamera [⟨2, 0, 0⟩] ⟨9⟩]

/-- A look at the same quad and another empty one, which takes the place of the root. -/
def rootAway : Call (List TileId) := .updateCamera [⟨2, 0, 0⟩, ⟨2, 2, 0⟩] ⟨10⟩

theorem exists_rootAway : ∃ past p t, roomy.Run past p ∧ past.map (·.1) = rootAndQuarter ∧
    p.call rootAway = .ok t ∧
    (past.flatMap fun e => e.2.effects.delta.addedIds) = [⟨0, 0, 0⟩, ⟨1, 0, 0⟩] ∧
    p.holdings.residents.ids = [⟨1, 0, 0⟩, ⟨0, 0, 0⟩] ∧
    t.effects.delta.removed = [⟨0, 0, 0⟩] ∧ t.effects.delta.addedIds = [⟨1, 1, 0⟩] ∧
    t.pipeline.holdings.desired = [⟨1, 0, 0⟩, ⟨1, 1, 0⟩] ∧
    t.pipeline.holdings.residents.ids = [⟨1, 1, 0⟩, ⟨1, 0, 0⟩] := by
  have hreplay : (roomy.replay rootAndQuarter).bind (fun r => (r.2.call rootAway).map fun t =>
      [r.1.flatMap fun e => e.2.effects.delta.addedIds, r.2.holdings.residents.ids,
        t.effects.delta.removed, t.effects.delta.addedIds, t.pipeline.holdings.desired,
        t.pipeline.holdings.residents.ids]) =
      .ok [[⟨0, 0, 0⟩, ⟨1, 0, 0⟩], [⟨1, 0, 0⟩, ⟨0, 0, 0⟩], [⟨0, 0, 0⟩], [⟨1, 1, 0⟩],
        [⟨1, 0, 0⟩, ⟨1, 1, 0⟩], [⟨1, 1, 0⟩, ⟨1, 0, 0⟩]] := by decide +kernel
  obtain ⟨past, p, t, hrun, hcalls, hc, hout⟩ := exists_call_of_replay hreplay
  simp only [List.cons.injEq, and_true] at hout
  exact ⟨past, p, t, hrun, hcalls, hc, hout⟩

end Pipeline

end TileStream
