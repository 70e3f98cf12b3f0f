import TileStream.Proofs.Pipeline.Course
import TileStream.Proofs.Pipeline.Ledger

/-! # From the start of a quad to its landing

A quad is started once it left the token bucket. What a call orders are the fetches of the quads that it
starts, all of them and no others (`Pipeline.mem_fetches_call`), and a quad of which a fetch was ordered
is being loaded when the call is over.

A quad that is being loaded leaves the joins in one way only: it is finished, gives its slot back and is
offered to the cache. `Turn.Lands` follows it over the steps of a call, with the place it lands in left
open, and `Turn.lands_step` says that it is never lost on the way. -/

namespace TileStream

namespace Pipeline

/-- **The fetch is one of the fetches of the quad:** that of an enabled layer of an existing child. -/
def Needs {τ κ : Type} (p : Pipeline τ κ) (quad : QuadId) (f : Fetch) : Prop :=
  f.tile.parent? = some quad ∧ p.quads.coverage.covers f.tile = true ∧
    p.tiles.layers.contains f.layer = true

theorem Alike.needs_iff {τ κ : Type} {p p' : Pipeline τ κ} (h : p.Alike p') (quad : QuadId)
    (f : Fetch) : p'.Needs quad f ↔ p.Needs quad f := by
  unfold Needs
  rw [h.coverage, h.layers]

end Pipeline

namespace Turn

variable {τ κ : Type} {t : Turn τ κ} {tasks : List Task} {quad : QuadId} {f : Fetch}

/-! ### What is started and ordered -/

/-- The fetch was ordered, or will be when its tile is. -/
def Ordered (w : Turn τ κ × List Task) (f : Fetch) : Prop :=
  f ∈ w.1.effects.fetches ∨
    (.call f.tile ∈ w.2 ∧ w.1.pipeline.tiles.layers.contains f.layer = true)

/-- **The fetches of the quads started are ordered,** and no others. -/
def OrdersStarted (w : Turn τ κ × List Task) : Prop :=
  ∀ f, Ordered w f ↔ ∃ quad ∈ startsIn w.1.journal, w.1.pipeline.Needs quad f

/-- Nothing was started or ordered. -/
theorem OrdersStarted.mono {w w' : Turn τ κ × List Task} (h : OrdersStarted w)
    (halike : w.1.pipeline.Alike w'.1.pipeline)
    (hstarts : startsIn w'.1.journal = startsIn w.1.journal)
    (hordered : ∀ f, Ordered w' f ↔ Ordered w f) : OrdersStarted w' := by
  intro f
  rw [hordered, hstarts]
  simp only [halike.needs_iff]
  exact h f

/-- A quad that is started has its children ordered. -/
theorem OrdersStarted.start {quads : QuadJoins} {tiles : List TileId}
    (h : OrdersStarted (t, .start quad :: tasks)) (hq : quad.IsQuad)
    (hc : t.pipeline.quads.coverage.children quad = .ok tiles)
    (hcover : quads.coverage = t.pipeline.quads.coverage) {more : List Task}
    (hmore : ∀ tile, .call tile ∈ more ↔ tile ∈ tiles) :
    OrdersStarted ({ t.started quad with pipeline.quads := quads }, more ++ tasks) := by
  intro f
  have hold := h f
  have hneeds : ∀ q, Pipeline.Needs { (t.started quad).pipeline with quads } q f ↔
      t.pipeline.Needs q f := fun q => by
    unfold Pipeline.Needs
    rw [hcover]
    rfl
  have hchild : f.tile ∈ tiles ↔ t.pipeline.quads.coverage.covers f.tile = true ∧
      f.tile.parent? = some quad := Coverage.mem_children hq hc
  simp only [Ordered, List.mem_cons, reduceCtorEq, false_or] at hold
  show (f ∈ t.effects.fetches ∨ (.call f.tile ∈ more ++ tasks ∧ _)) ↔
    ∃ q ∈ startsIn (t.started quad).journal, Pipeline.Needs { (t.started quad).pipeline with quads } q f
  rw [startsIn_started, List.mem_append, hmore, hchild]
  simp only [hneeds, List.mem_append, List.mem_singleton, or_and_right, exists_or, exists_eq_left]
  rw [← hold]
  unfold Pipeline.Needs
  have hlayers : (t.started quad).pipeline.tiles.layers = t.pipeline.tiles.layers := rfl
  tauto

/-- An ordered tile has its fetches ordered. -/
theorem OrdersStarted.call {tile : TileId} {tiles : TileJoins} {requests : List Fetch}
    (h : OrdersStarted (t, .call tile :: tasks))
    (hl : t.pipeline.tiles.load tile = (tiles, .fetch requests)) :
    OrdersStarted ({ t with
      pipeline.tiles := tiles, effects.fetches := t.effects.fetches ++ requests }, tasks) := by
  rcases t.pipeline.tiles.load_cases tile with ⟨-, heq⟩ | ⟨-, heq⟩ | ⟨-, heq⟩ <;>
    rw [hl] at heq <;> cases heq
  refine h.mono ⟨rfl, rfl, rfl, rfl⟩ rfl fun f => ?_
  unfold Ordered
  have hlayers : (t.pipeline.tiles.opened tile).layers = t.pipeline.tiles.layers := rfl
  simp only [List.mem_append, TileJoins.mem_fetchesOf, List.mem_cons, Task.call.injEq, hlayers]
  tauto

variable [TokenArithmetic τ] {w w' : Turn τ κ × List Task} {now : Instant}

theorem ordersStarted_step (ha : w.1.pipeline.Agrees w.2) (h : OrdersStarted w)
    (hs : Step now w w') : OrdersStarted w' := by
  have halike := Pipeline.alike_step hs
  cases hs with
  | poll => exact h.mono halike rfl fun f => by simp [Ordered]
  | submit =>
    refine h.mono halike (startsIn_submit _ _) fun f => ?_
    simp [Ordered, effects_submit, pipeline_submit]
  | @start t quad quads tiles rest hl =>
    obtain ⟨hq, hidle, -⟩ := ha.load
    obtain ⟨tiles', hc, heq⟩ := QuadJoins.load_eq hq hidle
    have hcover := QuadJoins.coverage_load hl
    rw [hl] at heq
    split at heq
    · cases heq
    · cases heq
      exact h.start hq hc hcover fun tile => by simp
  | @startEmpty t quad quads record rest hl =>
    obtain ⟨hq, hidle, -⟩ := ha.load
    obtain ⟨tiles', hc, heq⟩ := QuadJoins.load_eq hq hidle
    have hcover := QuadJoins.coverage_load hl
    rw [hl] at heq
    split at heq
    · next hnil =>
      rw [hnil] at hc
      have hmore : ∀ tile, .call tile ∈ [Task.finish record] ↔ tile ∈ ([] : List TileId) := by simp
      exact h.start hq hc hcover hmore
    · cases heq
  | startAgain hl => exact absurd hl ha.not_startAgain
  | call hl => exact h.call hl
  | callEmpty hl =>
    obtain ⟨rfl, -, hempty⟩ := TileJoins.load_complete hl
    refine h.mono halike rfl fun f => ?_
    -- without layers there is nothing to fetch
    have hnone := LayerSet.not_contains_of_isEmpty hempty f.layer
    simp [Ordered, hnone]
  | callAgain hl => exact absurd hl ha.not_callAgain
  | pass | passLast | offer | refuse => exact h.mono halike rfl fun f => by simp [Ordered]
  | finish =>
    refine h.mono halike (startsIn_released _ _ _ _) fun f => ?_
    simp [Ordered, effects_released, pipeline_released]

/-! ### Landing -/

/-- **The quad is on its way,** being loaded, finished or offered to the cache, or it has landed as `D`
tells. -/
def Lands (D : Turn τ κ × List Task → Prop) (quad : QuadId) (w : Turn τ κ × List Task) : Prop :=
  w.1.pipeline.quads.isLoading quad = true ∨
    (∃ record, record.id = quad ∧ (.finish record ∈ w.2 ∨
      (.offer record ∈ w.2 ∧ .finished record ∈ w.1.journal))) ∨ D w

/-- A task is the first one until it is done. -/
theorem task_step (hs : Step now w w') {task : Task} (h : task ∈ w.2) :
    task ∈ w'.2 ∨ ∃ rest, w.2 = task :: rest := by
  cases hs with
  | poll => cases h
  | submit | call | callAgain | pass | offer | refuse | startAgain =>
    rcases List.mem_cons.mp h with rfl | h
    · exact .inr ⟨_, rfl⟩
    · exact .inl h
  | startEmpty | callEmpty | passLast | finish =>
    rcases List.mem_cons.mp h with rfl | h
    · exact .inr ⟨_, rfl⟩
    · exact .inl (List.mem_cons_of_mem _ h)
  | start =>
    rcases List.mem_cons.mp h with rfl | h
    · exact .inr ⟨_, rfl⟩
    · exact .inl (List.mem_append_right _ h)

/-- What the journal tells it tells from then on. -/
theorem journal_step (ha : w.1.pipeline.Agrees w.2) (hs : Step now w w') {n : Notice}
    (h : n ∈ w.1.journal) : n ∈ w'.1.journal := by
  obtain ⟨news, hnews⟩ := advances_step ha.slots hs
  rw [hnews.journal]
  exact List.mem_append_left _ h

/-- A quad is loaded until its last tile comes, and that finishes it. -/
theorem loading_step (ha : w.1.pipeline.Agrees w.2) (hs : Step now w w')
    (h : w.1.pipeline.quads.isLoading quad = true) :
    w'.1.pipeline.quads.isLoading quad = true ∨
      ∃ record, record.id = quad ∧ .finish record ∈ w'.2 := by
  cases hs with
  | poll | call | callEmpty | callAgain | offer | refuse => exact .inl h
  | submit =>
    rw [pipeline_submit]
    exact .inl h
  | finish =>
    rw [pipeline_released]
    exact .inl h
  | @start t q _ _ _ hl =>
    obtain ⟨hq, hidle, -⟩ := ha.load
    obtain ⟨tiles, -, heq⟩ := QuadJoins.load_eq hq hidle
    rw [hl] at heq
    split at heq
    · cases heq
    · cases heq
      left
      show (t.pipeline.quads.opened q _).isLoading quad = true
      rw [QuadJoins.isLoading_opened, Bool.or_eq_true]
      exact .inr h
  | @startEmpty t q _ _ _ hl =>
    obtain ⟨hq, hidle, -⟩ := ha.load
    obtain ⟨tiles, -, heq⟩ := QuadJoins.load_eq hq hidle
    rw [hl] at heq
    split at heq
    · cases heq
      exact .inl h
    · cases heq
  | startAgain hl => exact absurd hl ha.not_startAgain
  | pass hd =>
    obtain ⟨_, _, finished, -, -, heq, -, -, -, hloading⟩ :=
      QuadJoins.deliver_of_awaits ha.quads (ha.handled _ List.mem_cons_self)
    rw [hd] at heq
    cases heq
    rcases hloading with ⟨-, hsame⟩ | ⟨r, hr, -⟩
    · exact .inl ((hsame quad).trans h)
    · cases hr
  | @passLast t record quads finished rest hd =>
    obtain ⟨q, _, _, -, -, heq, -, -, -, hloading⟩ :=
      QuadJoins.deliver_of_awaits ha.quads (ha.handled _ List.mem_cons_self)
    rw [hd] at heq
    cases heq
    rcases hloading with ⟨hnone, -⟩ | ⟨r, hr, rfl, hgone⟩
    · cases hnone
    · cases hr
      by_cases he : quad = finished.id
      · exact .inr ⟨finished, he.symm, List.mem_cons_self⟩
      · left
        show quads.isLoading quad = true
        rw [hgone, Bool.and_eq_true]
        exact ⟨decide_eq_true he, h⟩

/-- **A quad that is being loaded is not lost on the way:** it is finished, then offered, and then it has
landed. -/
theorem lands_step {D : Turn τ κ × List Task → Prop} (ha : w.1.pipeline.Agrees w.2)
    (hs : Step now w w') (h : Lands D quad w) (hkeep : D w → D w')
    (hoffer : ∀ record rest, record.id = quad → w.2 = .offer record :: rest →
      .finished record ∈ w.1.journal → D w') : Lands D quad w' := by
  rcases h with hload | ⟨record, hid, htask⟩ | hd
  · rcases loading_step ha hs hload with hload | ⟨record, hid, hfin⟩
    · exact .inl hload
    · exact .inr (.inl ⟨record, hid, .inl hfin⟩)
  · rcases htask with hfin | ⟨hoff, hjournal⟩
    · rcases task_step hs hfin with hfin | ⟨rest, hfirst⟩
      · exact .inr (.inl ⟨record, hid, .inl hfin⟩)
      · obtain ⟨t, tasks⟩ := w
        cases hfirst
        cases hs with
        | finish =>
          refine .inr (.inl ⟨record, hid, .inr ⟨List.mem_cons_self, ?_⟩⟩)
          rw [journal_released]
          exact List.mem_append_right _ (List.mem_singleton_self _)
    · rcases task_step hs hoff with hoff | ⟨rest, hfirst⟩
      · exact .inr (.inl ⟨record, hid, .inr ⟨hoff, journal_step ha hs hjournal⟩⟩)
      · exact .inr (.inr (hoffer record rest hid hfirst hjournal))
  · exact .inr (.inr (hkeep hd))

/-- **The quad was finished** since `v`, and its record was refused, or it was cached on the way. What
was cached need not be so any more. -/
def Landed (now : Instant) (v : Turn τ κ × List Task) (quad : QuadId) (w : Turn τ κ × List Task) :
    Prop :=
  ∃ record, record.id = quad ∧ .finished record ∈ w.1.journal ∧ (quad ∈ w.1.effects.refused ∨
    ∃ u, Steps now v u ∧ Steps now u w ∧ u.1.pipeline.holdings.cache.get? quad = some record)

/-- A quad refused stays among the refused. -/
theorem refused_step (hs : Step now w w') (h : quad ∈ w.1.effects.refused) :
    quad ∈ w'.1.effects.refused := by
  cases hs with
  | submit => rwa [effects_submit]
  | finish => rwa [effects_released]
  | refuse => exact List.mem_append_left _ h
  | poll | start | startEmpty | startAgain | call | callEmpty | callAgain | pass | passLast
  | offer => exact h

theorem landed_step {v : Turn τ κ × List Task} (ha : w.1.pipeline.Agrees w.2) (hv : Steps now v w)
    (hs : Step now w w') (h : Lands (Landed now v quad) quad w) :
    Lands (Landed now v quad) quad w' := by
  refine lands_step ha hs h ?_ ?_
  · rintro ⟨record, hid, hjournal, hplace⟩
    refine ⟨record, hid, journal_step ha hs hjournal, ?_⟩
    rcases hplace with hrefused | ⟨u, hu, hw, hget⟩
    · exact .inl (refused_step hs hrefused)
    · exact .inr ⟨u, hu, hw.tail hs, hget⟩
  · intro record rest hid hfirst hjournal
    refine ⟨record, hid, journal_step ha hs hjournal, ?_⟩
    have hlater := hv.tail hs
    obtain ⟨t, tasks⟩ := w
    cases hfirst
    cases hs with
    | offer hr =>
      obtain ⟨cache, evicted, hi, -, residents, rfl⟩ := Holdings.receive_eq_ok hr
      exact .inr ⟨_, hlater, .refl, hid ▸ QuadCache.get?_insert_self hi⟩
    | refuse hr => exact .inl (List.mem_append_right _ (List.mem_singleton.mpr hid.symm))

end Turn

namespace Pipeline

variable {τ κ : Type} {p : Pipeline τ κ} {c : Call κ} {t : Turn τ κ} {tasks : List Task}
  {quad : QuadId} {f : Fetch} {out : List Fetch}

/-! ### Calls -/

/-- A call begins with nothing started, ordered or changed in the quad joins. -/
theorem passage_open (ho : p.Opens c t tasks) : t.effects.fetches = [] ∧ startsIn t.journal = [] ∧
    (∀ tile, .call tile ∉ tasks) ∧ t.pipeline.quads = p.quads := by
  cases ho with
  | look hl | resume _ _ hl =>
    obtain ⟨_, _, _, _, _, rfl, rfl⟩ := hl
    exact ⟨rfl, startsIn_dropped _, fun tile h => by simp at h, rfl⟩
  | answer => exact ⟨rfl, rfl, fun tile h => by simp at h, rfl⟩
  | poll | heed => exact ⟨rfl, rfl, fun tile h => by simp at h, rfl⟩

variable [TokenArithmetic τ]

/-- **A call orders the fetches of the quads that it starts,** and no others. -/
theorem mem_fetches_call (ha : p.Agrees []) (hc : p.call c = .ok t) (f : Fetch) :
    f ∈ t.effects.fetches ↔ ∃ quad ∈ startsIn t.journal, p.Needs quad f := by
  obtain ⟨t₀, tasks, ho, hs⟩ := steps_call hc
  obtain ⟨hfetches, hstarts, htasks, -⟩ := passage_open ho
  have hbegin : Turn.OrdersStarted (t₀, tasks) := by
    intro f
    simp [Turn.Ordered, hfetches, hstarts, htasks]
  have hend : t.pipeline.Agrees [] ∧ p.Alike t.pipeline ∧ Turn.OrdersStarted (t, []) :=
    Turn.Steps.keeps (I := fun w => w.1.pipeline.Agrees w.2 ∧ p.Alike w.1.pipeline ∧
      Turn.OrdersStarted w)
      (fun ⟨ha, hl, ho⟩ hstep => ⟨agrees_step ha hstep, hl.trans (alike_step hstep),
        Turn.ordersStarted_step ha ho hstep⟩) hs ⟨agrees_open ha ho, alike_open ho, hbegin⟩
  obtain ⟨-, hl, horders⟩ := hend
  have hf := horders f
  simp only [Turn.Ordered, List.not_mem_nil, false_and, or_false, hl.needs_iff] at hf
  exact hf

/-- **A quad of which a fetch was ordered is being loaded when the call is over.** -/
theorem loading_of_fetch (ha : p.Agrees []) (howes : p.tiles.Owes out) (hc : p.call c = .ok t)
    (hf : f ∈ t.effects.fetches) (hparent : f.tile.parent? = some quad) :
    t.pipeline.quads.isLoading quad = true := by
  have hend := (agrees_call ha hc).1
  have hout : f ∈ ledgerAfter out (c, t) := List.mem_append_right _ hf
  have htile := TileJoins.isLoading_of_awaits (((owes_call howes hc).mem f).mp hout)
  have hawaits := ((hend.loading f.tile).mp htile).1
  obtain ⟨-, j, hj, -⟩ := (QuadJoins.awaits_iff hend.quads hparent).mp hawaits
  exact Table.contains_iff _ |>.mpr ⟨j, hj⟩

theorem nodup_fetches_call (howes : p.tiles.Owes out) (hc : p.call c = .ok t) :
    t.effects.fetches.Nodup :=
  (List.nodup_append.mp (owes_call howes hc).nodup).2.1

/-- **The quad is finished in the call,** and its record is refused, or it is cached at some time in the
call. -/
def Finishes (p : Pipeline τ κ) (c : Call κ) (t : Turn τ κ) (quad : QuadId) : Prop :=
  ∃ t₀ tasks, p.Opens c t₀ tasks ∧ Turn.Landed c.now (t₀, tasks) quad (t, [])

/-- **A quad that is not being loaded any more after a call was finished in it.** -/
theorem finishes_call (ha : p.Agrees []) (hc : p.call c = .ok t)
    (hload : p.quads.isLoading quad = true) (hleft : t.pipeline.quads.isLoading quad = false) :
    p.Finishes c t quad := by
  obtain ⟨t₀, tasks, ho, hs⟩ := steps_call hc
  refine ⟨t₀, tasks, ho, ?_⟩
  have hbegin : t₀.pipeline.quads.isLoading quad = true := by
    rw [(passage_open ho).2.2.2]
    exact hload
  have hend : t.pipeline.Agrees [] ∧ Turn.Steps c.now (t₀, tasks) (t, []) ∧
      Turn.Lands (Turn.Landed c.now (t₀, tasks) quad) quad (t, []) :=
    Turn.Steps.keeps (I := fun w => w.1.pipeline.Agrees w.2 ∧ Turn.Steps c.now (t₀, tasks) w ∧
      Turn.Lands (Turn.Landed c.now (t₀, tasks) quad) quad w)
      (fun ⟨ha, hw, hl⟩ hstep => ⟨agrees_step ha hstep, hw.tail hstep,
        Turn.landed_step ha hw hstep hl⟩) hs ⟨agrees_open ha ho, .refl, .inl hbegin⟩
  rcases hend.2.2 with hstill | ⟨record, -, htask⟩ | hlanded
  · rw [hleft] at hstill
    cases hstill
  · simp at htask
  · exact hlanded

end Pipeline

end TileStream
