import TileStream.Proofs.Pipeline.Faithful
import TileStream.Proofs.Pipeline.Mirror

/-! # What comes out of a pipeline

A record leaves the joins only when it is finished, which the journal of the call tells. From there it
goes to the cache and the GPU, and its quad is reported as completed; nothing else does
(`Turn.Traced`). Finished records tell the replies, so whatever a pipeline caches, sends or reports does
(`Pipeline.Run.records_report`). Two runs in which the fetches of a quad have the same replies finish it
with the same record. -/

namespace TileStream

namespace Turn

variable {τ κ : Type} {P : QuadRecord → Prop} {w w' : Turn τ κ × List Task}

/-- **What came out was finished,** in this call or as `P` tells. -/
structure Traced (P : QuadRecord → Prop) (w : Turn τ κ × List Task) : Prop where
  cached : ∀ q r, w.1.pipeline.holdings.cache.get? q = some r → P r ∨ .finished r ∈ w.1.journal
  offered : ∀ r, .offer r ∈ w.2 → .finished r ∈ w.1.journal
  completed : ∀ q ∈ w.1.effects.completed, ∃ r, .finished r ∈ w.1.journal ∧ r.id = q

theorem Traced.mono (h : Traced P w)
    (hjournal : ∀ r, .finished r ∈ w.1.journal → .finished r ∈ w'.1.journal)
    (hcache : w'.1.pipeline.holdings.cache = w.1.pipeline.holdings.cache)
    (hoffered : ∀ r, .offer r ∈ w'.2 → .offer r ∈ w.2)
    (hcompleted : w'.1.effects.completed = w.1.effects.completed) : Traced P w' := by
  refine ⟨fun q r hr => ?_, fun r hr => hjournal r (h.offered r (hoffered r hr)), fun q hq => ?_⟩
  · rw [hcache] at hr
    exact (h.cached q r hr).imp_right (hjournal r)
  · rw [hcompleted] at hq
    obtain ⟨r, hr, hid⟩ := h.completed q hq
    exact ⟨r, hjournal r hr, hid⟩

variable {t : Turn τ κ} {tasks : List Task}

/-- A quad that is finished is offered to the cache and reported. -/
theorem Traced.finish {record : QuadRecord} (h : Traced P (t, .finish record :: tasks))
    (slots : Slots) (next : Option QuadId) :
    Traced P (t.released record slots next, .offer record :: tasks) := by
  have hjournal : ∀ r, .finished r ∈ t.journal →
      .finished r ∈ (t.released record slots next).journal := by
    intro r hr
    rw [journal_released]
    exact List.mem_append_left _ hr
  have hnew : .finished record ∈ (t.released record slots next).journal := by
    rw [journal_released]
    exact List.mem_append_right _ (List.mem_singleton_self _)
  refine ⟨fun q r hr => ?_, fun r hr => ?_, fun q hq => ?_⟩
  · rw [pipeline_released] at hr
    exact (h.cached q r hr).imp_right (hjournal r)
  · rcases List.mem_cons.mp hr with hr | hr
    · cases hr
      exact hnew
    · exact hjournal r (h.offered r (List.mem_cons_of_mem _ hr))
  · rw [effects_released] at hq
    rcases List.mem_append.mp hq with hq | hq
    · obtain ⟨r, hr, hid⟩ := h.completed q hq
      exact ⟨r, hjournal r hr, hid⟩
    · exact ⟨record, hnew, (List.mem_singleton.mp hq).symm⟩

theorem Traced.offer {record : QuadRecord} {now : Instant} {holdings : Holdings}
    {delta : ResidencyDelta} (h : Traced P (t, .offer record :: tasks))
    (hr : t.pipeline.holdings.receive record now = .ok (holdings, delta)) :
    Traced P ({ t with
      pipeline.holdings := holdings, effects.delta := t.effects.delta.merge delta }, tasks) := by
  obtain ⟨cache, evicted, hi, -, residents, rfl⟩ := Holdings.receive_eq_ok hr
  refine ⟨fun q r hget => ?_, fun r hr => h.offered r (List.mem_cons_of_mem _ hr), h.completed⟩
  rcases QuadCache.get?_of_insert hi hget with rfl | hwas
  · exact .inr (h.offered r List.mem_cons_self)
  · exact h.cached q r hwas

variable [TokenArithmetic τ]

/-- **A record comes out only by being finished.** -/
theorem traced_step {now : Instant} (h : Traced P w) (hs : Step now w w') : Traced P w' := by
  cases hs with
  | poll => exact h.mono (fun r hr => hr) rfl (fun r hr => by simp at hr) rfl
  | submit =>
    refine h.mono (fun r hr => ?_) ?_ (fun r hr => List.mem_cons_of_mem _ hr) ?_
    · rw [journal_submit]
      split
      · exact hr
      · exact List.mem_append_left _ hr
    · rw [pipeline_submit]
    · rw [effects_submit]
  | start | startEmpty =>
    exact h.mono (fun r hr => List.mem_append_left _ hr) rfl (fun r hr => by simpa using hr) rfl
  | startAgain =>
    refine h.mono (fun r hr => ?_) rfl (fun r hr => by simpa using hr) rfl
    exact List.mem_append_left _ (List.mem_append_left _ hr)
  | callAgain =>
    exact h.mono (fun r hr => List.mem_append_left _ hr) rfl (fun r hr => by simpa using hr) rfl
  | call | callEmpty | pass | passLast =>
    exact h.mono (fun r hr => hr) rfl (fun r hr => by simpa using hr) rfl
  | finish => exact h.finish _ _
  | offer hr => exact h.offer hr
  | refuse => exact h.mono (fun r hr => hr) rfl (fun r hr => List.mem_cons_of_mem _ hr) rfl

end Turn

namespace Pipeline

variable {τ κ : Type} {p : Pipeline τ κ} {t : Turn τ κ} {tasks : List Task} {P : QuadRecord → Prop}

theorem Looks.traced {camera : κ} {now : Instant} (hl : p.Looks camera now t tasks)
    (h : ∀ q r, p.holdings.cache.get? q = some r → P r) : Turn.Traced P (t, tasks) := by
  obtain ⟨needed, holdings, orders, -, hv, rfl, rfl⟩ := hl
  obtain ⟨-, ⟨residents, rfl⟩, -⟩ := Holdings.view_eq_ok hv
  refine ⟨fun q r hr => .inl (h q r ?_), fun r hr => by simp at hr, fun q hq => by cases hq⟩
  exact (QuadCache.get?_foldl_touch _ _ _ q).symm.trans hr

theorem traced_open {c : Call κ} (h : ∀ q r, p.holdings.cache.get? q = some r → P r)
    (ho : p.Opens c t tasks) : Turn.Traced P (t, tasks) := by
  cases ho with
  | look hl => exact hl.traced h
  | resume _ _ hl => exact hl.traced h
  | answer | poll | heed =>
    exact ⟨fun q r hr => .inl (h q r hr), fun r hr => by simp at hr, fun q hq => by cases hq⟩

variable [TokenArithmetic τ]

theorem traced_call {c : Call κ} (h : ∀ q r, p.holdings.cache.get? q = some r → P r)
    (hc : p.call c = .ok t) : Turn.Traced P (t, []) := by
  obtain ⟨t₀, tasks, ho, hs⟩ := steps_call hc
  exact Turn.Steps.keeps (I := Turn.Traced P) Turn.traced_step hs (traced_open h ho)

variable {s : StreamSettings} {culling : Culling κ} {coverage : Coverage} {start : Pipeline τ κ}
  {past : List (Call κ × Turn τ κ)}

/-! ### Runs -/

/-- The record was finished in one of the calls. -/
def FinishedIn (past : List (Call κ × Turn τ κ)) (record : QuadRecord) : Prop :=
  ∃ e ∈ past, .finished record ∈ e.2.journal

theorem Run.faithful (hs : ofSettings s culling coverage = .ok start) (h : start.Run past p) :
    p.Faithful (events past) := by
  induction h with
  | rest =>
    obtain ⟨-, rfl⟩ := eq_of_ofSettings hs
    exact ⟨fun t j hj => (by cases hj), fun q j hj => by cases hj⟩
  | @call past p c t h hc ih =>
    obtain ⟨hf, -⟩ := faithful_call ih (h.agrees hs).1 hc
    rwa [events, List.flatMap_append, List.flatMap_singleton]

/-- A record that is finished in a call tells the replies that are in by then. -/
theorem Run.reports (hs : ofSettings s culling coverage = .ok start) (h : start.Run past p)
    {c : Call κ} (hc : p.call c = .ok t) {record : QuadRecord} (hr : .finished record ∈ t.journal) :
    record.Reports { coverage with maxZoom := min coverage.maxZoom s.maxZoom } s.enabledLayers
      (events past ++ c.brings) := by
  obtain ⟨ha, hl, -⟩ := h.agrees hs
  have hrecord := (faithful_call (h.faithful hs) ha hc).2 record hr
  obtain ⟨-, rfl⟩ := eq_of_ofSettings hs
  rwa [hl.coverage, hl.layers] at hrecord

theorem Run.finishedIn (hs : ofSettings s culling coverage = .ok start) (h : start.Run past p)
    (q : QuadId) (record : QuadRecord) (hget : p.holdings.cache.get? q = some record) :
    FinishedIn past record := by
  induction h generalizing q record with
  | rest =>
    obtain ⟨-, rfl⟩ := eq_of_ofSettings hs
    cases hget
  | @call past p c t h hc ih =>
    have htraced := traced_call (P := FinishedIn past) ih hc
    rcases htraced.cached q record hget with ⟨e, he, hr⟩ | hr
    · exact ⟨e, List.mem_append_left _ he, hr⟩
    · exact ⟨(c, t), List.mem_append_right _ (List.mem_singleton_self _), hr⟩

/-! ### A run that finishes a quad -/

/-- A look at the root and all the answers to its fetches but one, in no particular order. One comes
twice and one was not asked for. -/
def answersButOne : List (Call (List TileId)) :=
  [.updateCamera [⟨1, 0, 0⟩] ⟨0⟩, .deliver ⟨1, 1, 1⟩ .ortho (.ok [9]) ⟨1⟩,
    .deliver ⟨1, 0, 1⟩ .height (.error .notFound) ⟨2⟩, .deliver ⟨1, 1, 1⟩ .ortho (.ok [8]) ⟨3⟩,
    .deliver ⟨1, 1, 0⟩ .height (.ok [7]) ⟨4⟩, .deliver ⟨5, 0, 0⟩ .vector (.ok []) ⟨5⟩,
    .deliver ⟨1, 0, 1⟩ .ortho (.ok [6]) ⟨6⟩, .deliver ⟨1, 1, 1⟩ .height (.ok [5]) ⟨7⟩,
    .deliver ⟨1, 0, 0⟩ .height (.ok [4]) ⟨8⟩, .deliver ⟨1, 1, 0⟩ .ortho (.ok [3]) ⟨9⟩]

theorem exists_lastAnswer : ∃ past p t, sample.Run past p ∧ past.map (·.1) = answersButOne ∧
    p.call (.deliver ⟨1, 0, 0⟩ .ortho (.ok [2]) ⟨10⟩) = .ok t ∧ t.effects.completed = [⟨0, 0, 0⟩] := by
  have hreplay : (sample.replay answersButOne).bind (fun r =>
      (r.2.call (.deliver ⟨1, 0, 0⟩ .ortho (.ok [2]) ⟨10⟩)).map (·.effects.completed)) =
        .ok [⟨0, 0, 0⟩] := by decide +kernel
  exact exists_call_of_replay hreplay

/-! ### Everything that comes out -/

/-- **Whatever comes out of a pipeline tells the replies.** A record that is finished in a call lists the
existing children of its quad in order, each with a status for the enabled layers and no other, and each
status is that of the first outcome since its fetch was ordered. Only finished records are cached, sent
to the GPU or reported. In another run in which the fetches have the same replies, the quad is finished
with the same record. -/
theorem Run.records_report (hs : ofSettings s culling coverage = .ok start) (h : start.Run past p)
    {c : Call κ} (hc : p.call c = .ok t) :
    (∀ record, .finished record ∈ t.journal →
      record.Reports { coverage with maxZoom := min coverage.maxZoom s.maxZoom } s.enabledLayers
        (events past ++ c.brings)) ∧
    (∀ q record, t.pipeline.holdings.cache.get? q = some record →
      FinishedIn (past ++ [(c, t)]) record) ∧
    (∀ record ∈ t.effects.delta.added, FinishedIn (past ++ [(c, t)]) record) ∧
    (∀ q ∈ t.effects.completed, ∃ record, .finished record ∈ t.journal ∧ record.id = q) ∧
    ∀ past' p' c' t', start.Run past' p' → p'.call c' = .ok t' →
      ∀ record record', .finished record ∈ t.journal → .finished record' ∈ t'.journal →
        record.id = record'.id →
        (∀ r ∈ record.tiles, ∀ l outcome, Replied (events past ++ c.brings) ⟨r.id, l⟩ outcome ↔
          Replied (events past' ++ c'.brings) ⟨r.id, l⟩ outcome) →
        record = record' := by
  have hcached := (h.call hc).finishedIn hs
  refine ⟨fun record hr => h.reports hs hc hr, hcached, fun record hr => ?_, ?_, ?_⟩
  · have ht := tells_call (h.mirror hs).1 hc
    exact hcached record.id record (ht.cached_of_added hr)
  · have htraced : Turn.Traced (fun _ => True) (t, []) := traced_call (fun _ _ _ => trivial) hc
    exact htraced.completed
  · intro past' p' c' t' h' hc' record record' hr hr' hid hsame
    exact (h.reports hs hc hr).eq (h'.reports hs hc' hr') hid hsame

theorem Run.records_report_root : ∃ past p t record, sample.Run past p ∧
    past.map (·.1) = answersButOne ∧
    p.call (.deliver ⟨1, 0, 0⟩ .ortho (.ok [2]) ⟨10⟩) = .ok t ∧
    .finished record ∈ t.journal ∧ record.id = ⟨0, 0, 0⟩ ∧
    record.Reports (.ofDepth 4) StreamSettings.standard.enabledLayers
      (events past ++ [.answered ⟨⟨1, 0, 0⟩, .ortho⟩ (.ok [2])]) := by
  obtain ⟨past, p, t, hrun, hcalls, hc, hdone⟩ := exists_lastAnswer
  obtain ⟨hreports, -, -, hcompleted, -⟩ := Run.records_report ofSettings_sample hrun hc
  obtain ⟨record, hr, hid⟩ := hcompleted ⟨0, 0, 0⟩ (by rw [hdone]; exact List.mem_singleton_self _)
  exact ⟨past, p, t, record, hrun, hcalls, hc, hr, hid, hreports record hr⟩

end Pipeline

end TileStream
